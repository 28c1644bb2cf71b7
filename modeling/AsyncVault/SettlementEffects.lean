/-
AsyncVault/SettlementEffects.lean

What an approval and the instant settlements do.

The approval is the longest handler.  Its parts are specified first: the fee
payment spends no more than the fee (`paySettlementFee_ok`), the supply cache
moves to the predicted supply (`updateTrancheSupplyCache_ok`), and the
junior-ratio guard, when it applies, establishes the junior floor for the book
with that cache (`maybeEnforceJuniorRatioFloor_ok`).  `approveRequest_ok`
assembles them into a step of the order book.
-/
import AsyncVault.RequestEffects

namespace AsyncVault

open Checked TokenLedger KeyedStore OrderBook Function FixedPoint

variable {s s' : VaultState} {m k : Pubkey} {r : Request} {n : ℕ} {y : Mint Pubkey}
variable {context : RequestShareMintContext} {remaining : List AccountInfo}
variable {token token' : Ledger Pubkey} {program : TokenProgram} {src : Pubkey}

/-! ### Fees -/

theorem payFee_ok {account : Option AccountInfo} {mint authority : Pubkey}
    (h : payFee token program src mint account authority n = .ok token') :
    Spent token token' src n := by
  unfold payFee at h
  cases account with
  | none =>
    obtain rfl := pure_eq_ok.1 h
    exact .refl _ _ _
  | some info =>
    simp only [VaultState.transferToInfo, bind_eq_ok, cpi_eq_ok] at h
    obtain ⟨-, -, h⟩ := h
    exact (transferChecked_ok h).spent

/-- Paying a settlement fee spends at most the fee. -/
theorem paySettlementFee_ok {mint : Pubkey} {fee : ℕ}
    (h : paySettlementFee s program src mint fee remaining = .ok token) :
    Spent s.token token src fee := by
  simp only [paySettlementFee, bind_eq_ok] at h
  obtain ⟨⟨protocolFee, recipientFee⟩, hsplit, ⟨account, rest⟩, -, protocolAccount, -, token₁, h₁,
    h₂⟩ := h
  have hsum := splitProtocolFee_add hsplit
  simp only at hsum
  rw [← hsum, Nat.add_comm]
  exact (payFee_ok h₁).trans (payFee_ok h₂)

theorem payInstantFee_ok {mint authority : Pubkey} {fee : ℕ}
    {account protocolAccount : Option Pubkey}
    (h : payInstantFee s token program src mint authority fee account protocolAccount remaining =
      .ok token') : Spent token token' src fee := by
  simp only [payInstantFee, bind_eq_ok] at h
  obtain ⟨⟨protocolFee, recipientFee⟩, hsplit, token₁, h₁, h₂⟩ := h
  have hsum := splitProtocolFee_add hsplit
  simp only at hsum h₁ h₂
  rw [← hsum, Nat.add_comm]
  refine Spent.trans (?_ : Spent token token₁ src _) ?_
  · split at h₁
    · simp only [bind_eq_ok, cpi_eq_ok] at h₁
      obtain ⟨_, -, -, -, h₁⟩ := h₁
      exact (transferChecked_ok h₁).spent
    · obtain rfl := pure_eq_ok.1 h₁
      exact .refl _ _ _
  · split at h₂
    · simp only [bind_eq_ok, cpi_eq_ok] at h₂
      obtain ⟨_, -, _, -, -, -, h₂⟩ := h₂
      exact (transferChecked_ok h₂).spent
    · obtain rfl := pure_eq_ok.1 h₂
      exact .refl _ _ _

/-! ### Predicted supplies -/

/-- The supply an approval predicts, as a formula. -/
def predictedSupply (cached live : ℕ) (t : RequestType) (delta : ℕ) : ℕ :=
  match t with
  | .deposit => max cached live + delta
  | .redeem => max cached (live + delta) - delta

theorem postApprovalSupply_ok {cached live delta : ℕ} {t : RequestType}
    (h : postApprovalSupply cached live t delta = .ok n) :
    n = predictedSupply cached live t delta := by
  unfold postApprovalSupply at h
  cases t with
  | deposit =>
    simp only [add_eq_ok] at h
    exact h.2
  | redeem =>
    simp only [bind_eq_ok, add_eq_ok, sub_eq_ok] at h
    obtain ⟨_, ⟨-, rfl⟩, -, rfl⟩ := h
    rfl

/-- The prediction covers the live supply. -/
theorem le_predictedSupply (cached live : ℕ) (t : RequestType) (delta : ℕ) :
    live ≤ predictedSupply cached live t delta := by
  unfold predictedSupply
  cases t <;> simp only <;> omega

theorem adjusted_trancheConfig {tc : TrancheConfig} (tc' : TrancheConfig) {cached : Pubkey → ℕ}
    (htc : s.trancheConfig = some tc) (hterms : tc'.terms = tc.terms)
    (hnav : ∀ m, tc'.navOf m = tc.navOf m) (hcached : tc'.supplyOf = cached) :
    Adjusted s { s with trancheConfig := some tc' } { s.book with cached := cached } := by
  subst hcached
  have ht : VaultState.terms { s with trancheConfig := some tc' } = s.terms := by
    simp [VaultState.terms, htc, hterms]
  refine ⟨ht, rfl, rfl, ?_⟩
  have htr : tc'.tranches = tc.tranches := by
    simp only [TrancheConfig.terms, TrancheTerms.mk.injEq] at hterms
    simp [TrancheConfig.tranches, hterms]
  simp only [VaultState.book, ht, htc, Option.map_some, Option.getD_some, hnav, htr]
  rfl

/-- The recorded supply of the selected tranche becomes the predicted one. -/
theorem updateTrancheSupplyCache_ok (hc : s.terms.Coherent)
    (hm : m ∈ s.terms.shareMints) {t : RequestType} {delta live : ℕ} {info : Option AccountInfo}
    (h : updateTrancheSupplyCache s m t delta live (s.requestContext m).trancheInfo info = .ok s') :
    Adjusted s s' { s.book with
      cached := s.book.recached m (predictedSupply (s.book.cached m) live t delta) } := by
  unfold updateTrancheSupplyCache VaultState.requestContext at h
  -- without tranches nothing is recorded and the book has no cache to change
  cases htc : s.trancheConfig with
  | none =>
    simp only [htc, Option.map_none] at h
    obtain rfl := pure_eq_ok.1 h
    have hb : s.book.recached m (predictedSupply (s.book.cached m) live t delta) =
        s.book.cached := by
      simp [Book.recached, VaultState.book, htc]
    rw [hb]
    exact .refl s
  | some tc =>
    simp only [htc, Option.map_some, bind_eq_ok, TrancheConfig.requestInfo] at h
    obtain ⟨tc', htc', h⟩ := h
    obtain rfl := Option.some.inj ((writableTrancheConfig_ok htc').symm.trans htc)
    have hmem := (VaultState.mem_shareMints htc).1 hm
    have hne := VaultState.senior_ne_junior hc htc
    rw [VaultState.book_recached htc, VaultState.book_cached htc]
    -- the share is one of the two tranches, and the other one keeps its record
    by_cases hs : m = tc'.seniorShareMint
    · simp only [if_pos hs, bind_eq_ok, pure_eq_ok] at h
      obtain ⟨n, hn, rfl⟩ := h
      have hval : tc'.supplyOf m = tc'.seniorSupply := by rw [hs, tc'.supplyOf_senior]
      refine adjusted_trancheConfig { tc' with seniorSupply := n } htc rfl (fun _ => rfl)
        (funext fun m' => ?_)
      rw [hval, ← postApprovalSupply_ok hn, update_apply, TrancheConfig.supplyOf,
        TrancheConfig.supplyOf, hs]
      split <;> rfl
    · have hj := hmem.resolve_left hs
      simp only [if_neg hs, if_pos hj, bind_eq_ok, pure_eq_ok] at h
      obtain ⟨n, hn, rfl⟩ := h
      have hval : tc'.supplyOf m = tc'.juniorSupply := by
        rw [hj, TrancheConfig.supplyOf_junior hne]
      refine adjusted_trancheConfig { tc' with juniorSupply := n } htc rfl (fun _ => rfl)
        (funext fun m' => ?_)
      rw [hval, ← postApprovalSupply_ok hn, update_apply, TrancheConfig.supplyOf,
        TrancheConfig.supplyOf, hj]
      grind

/-! ### The junior-ratio guard -/

theorem RequestType.side_eq_deposit {t : RequestType} : t.side = .deposit ↔ t = .deposit := by
  cases t <;> simp [RequestType.side]

theorem RequestType.side_eq_redeem {t : RequestType} : t.side = .redeem ↔ t = .redeem := by
  cases t <;> simp [RequestType.side]

theorem tokenMintInfo_ok {info : AccountInfo} (h : s.tokenMintInfo info = .ok y) :
    s.token.mints info.key = some y := okOr_eq_ok.1 h

/-- The supply the guard takes for a tranche is the one the book would show after
the approval. -/
theorem guardSupply {x : Pubkey} {t : RequestType} {delta : ℕ} (hx : x ∈ s.terms.shareMints)
    (hy : s.token.mints x = some y)
    (h : (if m = x then postApprovalSupply (s.book.cached x) y.supply t delta
      else pure (max y.supply (s.book.cached x))) = .ok n) :
    max (s.book.supply x) (update s.book.cached m
      (predictedSupply (s.book.cached m) (s.book.supply m) t delta) x) = n := by
  have hs : s.book.supply x = y.supply := by
    rw [VaultState.supply_of_mem hx, supply_of_some hy]
  by_cases hm : m = x
  · subst hm
    rw [if_pos rfl] at h
    rw [update_self, max_eq_right (le_predictedSupply _ _ _ _), hs, postApprovalSupply_ok h]
  · rw [if_neg hm, pure_eq_ok] at h
    rw [update_of_ne (Ne.symm hm), hs, h]

/-- Where the guard applies, passing it establishes the junior floor for the book
with the predicted supply in the cache. -/
theorem maybeEnforceJuniorRatioFloor_ok (hc : s.terms.Coherent) {t : RequestType}
    {delta : ℕ} {rest : List AccountInfo}
    (h : maybeEnforceJuniorRatioFloor s m t delta (s.requestContext m).trancheInfo remaining =
      .ok rest) (hg : s.book.Guards t.side m) :
    Book.FloorHolds { s.book with
      cached := s.book.recached m
        (predictedSupply (s.book.cached m) (s.book.supply m) t delta) } := by
  obtain ⟨tr, htr, hside⟩ := hg
  intro tr' htr' hmin
  obtain rfl : tr = tr' := Option.some.inj (htr.symm.trans htr')
  obtain ⟨tc, htc, rfl⟩ := Option.map_eq_some_iff.1 htr
  have hne := VaultState.senior_ne_junior hc htc
  have hguarded : (t = .deposit ∧ m = tc.seniorShareMint) ∨
      (t = .redeem ∧ m = tc.juniorShareMint) := by
    rw [RequestType.side_eq_deposit, RequestType.side_eq_redeem] at hside
    exact hside
  have hprice : ∀ x, settlementNav (some (tc.navOf x)) s.vault.nav = s.book.price x := fun x => by
    rw [← price_eq_book, VaultState.price, VaultState.requestContext, htc]
    rfl
  have hunit : ∀ x y, x ∈ s.terms.shareMints → s.token.mints x = some y →
      10 ^ y.decimals = s.book.unit x := fun x y hx hy => by
    simp [VaultState.book, hx, unit_of_some hy]
  unfold maybeEnforceJuniorRatioFloor at h
  simp only [VaultState.requestContext, htc, Option.map_some, TrancheConfig.requestInfo,
    if_neg (Nat.pos_iff_ne_zero.1 hmin : ¬tc.minJuniorRatioBps = 0), if_pos hguarded,
    bind_eq_ok, okOr_eq_ok, ensure_eq_ok] at h
  obtain ⟨seniorInfo, -, juniorInfo, -, -, hsk, -, hjk, senior, hs, junior, hj, seniorSupply, hss,
    juniorSupply, hjs, seniorAssets, hsa, juniorAssets, hja, total, htotal, h⟩ := h
  have hs := tokenMintInfo_ok hs
  have hj := tokenMintInfo_ok hj
  rw [hsk] at hs
  rw [hjk] at hj
  have hms := (VaultState.mem_shareMints htc).2 (.inl rfl)
  have hmj := (VaultState.mem_shareMints htc).2 (.inr rfl)
  rw [← tc.supplyOf_senior, ← VaultState.book_cached htc] at hss
  rw [← TrancheConfig.supplyOf_junior hne, ← VaultState.book_cached htc] at hjs
  rw [← tc.navOf_senior] at hsa
  rw [← TrancheConfig.navOf_junior hne] at hja
  -- the two guard valuations are the amounts the guard compares
  have hsw : Book.guardWorth { s.book with
      cached := s.book.recached m
        (predictedSupply (s.book.cached m) (s.book.supply m) t delta) } tc.seniorShareMint =
      seniorAssets := by
    rw [assetsFromNav_ok hsa, hprice, hunit _ _ hms hs, ← guardSupply hms hs hss,
      ← VaultState.book_recached htc]
    rfl
  have hjw : Book.guardWorth { s.book with
      cached := s.book.recached m
        (predictedSupply (s.book.cached m) (s.book.supply m) t delta) } tc.juniorShareMint =
      juniorAssets := by
    rw [assetsFromNav_ok hja, hprice, hunit _ _ hmj hj, ← guardSupply hmj hj hjs,
      ← VaultState.book_recached htc]
    rfl
  show RatioHolds tc.minJuniorRatioBps (Book.guardWorth _ tc.seniorShareMint)
    (Book.guardWorth _ tc.juniorShareMint)
  rw [hsw, hjw]
  obtain ⟨-, rfl⟩ := add_eq_ok.1 htotal
  split at h
  · next h0 => exact .inl h0
  · simp only [bind_eq_ok, mul_eq_ok, div_eq_ok, ensure_eq_ok] at h
    obtain ⟨_, ⟨-, rfl⟩, _, ⟨-, rfl⟩, -, hle, -⟩ := h
    exact .inr hle

/-! ### The two settlements -/

/-- The book of an approval with the predicted supply in the cache. -/
def VaultState.predictedBook (s : VaultState) (m : Pubkey) (t : RequestType) (delta : ℕ) :
    Book Pubkey :=
  { s.book with
    cached := s.book.recached m (predictedSupply (s.book.cached m) (s.book.supply m) t delta) }

theorem consumeRedemptionRollingLimit_adjusted {amount slot : ℕ} {v : Vault}
    (h : s.vault.consumeRedemptionRollingLimit amount slot = .ok v) :
    Adjusted s (s.withVault v) s.book := by
  obtain ⟨_, _, rfl⟩ := Vault.consumeRedemptionRollingLimit_ok h
  exact ⟨rfl, rfl, rfl, rfl⟩

theorem settleDeposit_ok {ctx : ApproveRequest} {nav : ℕ} {x : Settlement}
    (hc : s.terms.Coherent) (hm : ctx.shareMint ∈ s.terms.shareMints)
    (hy : s.token.mints ctx.shareMint = some y)
    (h : settleDeposit s ctx (s.requestContext ctx.shareMint) r nav y remaining = .ok x) :
    ∃ s₁ token, x.state = s₁.put token s.requests ∧
      Adjusted s s₁ (s.predictedBook ctx.shareMint .deposit x.claimableAmount) ∧
      Spent s.token token ctx.pendingVault r.amount ∧
      x.claimableAmount = sharesFor (s.book.unit ctx.shareMint) nav x.balanceDelta ∧
      (s.book.Guards .deposit ctx.shareMint →
        (s.predictedBook ctx.shareMint .deposit x.claimableAmount).FloorHolds) := by
  have hsupply : y.supply = s.book.supply ctx.shareMint := by
    rw [VaultState.supply_of_mem hm, supply_of_some hy]
  have hunit : 10 ^ y.decimals = s.book.unit ctx.shareMint := by
    simp [VaultState.book, hm, unit_of_some hy]
  obtain ⟨fee, net, shares, rest, s₁, token₁, token, hs, rfl⟩ := settleDeposit_iff.1 h
  have hsum := getDepositFeeAndNet_add hs.parts
  have hadj := updateTrancheSupplyCache_ok hc hm hs.cached
  have hpaid := paySettlementFee_ok hs.feePaid
  rw [hadj.token] at hpaid
  rw [hsupply] at hadj
  have hspent := hpaid.trans (transferChecked_ok hs.paid).spent
  simp only at hsum
  rw [hsum] at hspent
  refine ⟨s₁, token, by rw [← hadj.requests]; rfl, hadj, hspent, ?_,
    maybeEnforceJuniorRatioFloor_ok hc hs.floor⟩
  rw [← hunit]
  exact (calculateShares_ok hs.priced).2.1

theorem settleRedeem_ok {ctx : ApproveRequest} {nav : ℕ} {x : Settlement}
    (hc : s.terms.Coherent) (hm : ctx.shareMint ∈ s.terms.shareMints)
    (hy : s.token.mints ctx.shareMint = some y)
    (h : settleRedeem s ctx (s.requestContext ctx.shareMint) r nav y remaining = .ok x) :
    ∃ s₁ token₁ token fee, x.state = s₁.put token s.requests ∧
      Adjusted s s₁ (s.predictedBook ctx.shareMint .redeem r.amount) ∧
      Spent s.token token₁ ctx.vaultTokenAccount fee ∧
      Transferred token₁ token ctx.assetTokenProgram ctx.vaultTokenAccount ctx.assetMint
        ctx.pendingVault s.key x.claimableAmount ∧
      x.balanceDelta = worth (s.book.unit ctx.shareMint) r.amount nav ∧
      (s.book.Guards .redeem ctx.shareMint →
        (s.predictedBook ctx.shareMint .redeem r.amount).FloorHolds) := by
  have hsupply : y.supply = s.book.supply ctx.shareMint := by
    rw [VaultState.supply_of_mem hm, supply_of_some hy]
  have hunit : 10 ^ y.decimals = s.book.unit ctx.shareMint := by
    simp [VaultState.book, hm, unit_of_some hy]
  obtain ⟨gross, fee, net, rest, s₁, v, token₁, token, hs, rfl⟩ := settleRedeem_iff.1 h
  -- in the order of the handler: the cache, the fee, the assets, the redemption window
  have hadj := updateTrancheSupplyCache_ok hc hm hs.cached
  have hpaid := paySettlementFee_ok hs.feePaid
  have htr := transferChecked_ok hs.paid
  simp only at hpaid
  rw [hadj.token] at hpaid
  rw [VaultState.key_of_terms hadj.terms] at htr
  rw [hsupply] at hadj
  have hlim := consumeRedemptionRollingLimit_adjusted hs.charged
  rw [hadj.book] at hlim
  refine ⟨s₁.withVault v, token₁, token, fee, by rw [← hadj.requests]; rfl, hadj.trans hlim, hpaid,
    htr, ?_, maybeEnforceJuniorRatioFloor_ok hc hs.floor⟩
  rw [← hunit]
  exact (calculateAssets_eq_ok.1 hs.valued).2.2.2.2

theorem creditDeposit_ok {delta amount : ℕ} {v : Vault}
    (h : creditDeposit s.vault delta amount = .ok v) :
    Adjusted s (s.withVault v) { s.book with
      assets := s.book.assets + delta
      reserved := update s.book.reserved s.vault.assetMint
        (s.book.reserved s.vault.assetMint - amount) } := by
  have hv : v = { s.vault with
      totalAssetBalance := s.vault.totalAssetBalance + delta
      pendingDepositAmount := s.vault.pendingDepositAmount - amount } := by
    unfold creditDeposit at h
    split at h <;> simp only [bind_eq_ok, add_eq_ok, sub_eq_ok, ensure_eq_ok, pure_eq_ok] at h
    · obtain ⟨_, -, -, -, _, ⟨-, rfl⟩, _, ⟨-, rfl⟩, rfl⟩ := h
      rfl
    · obtain ⟨_, ⟨-, rfl⟩, _, ⟨-, rfl⟩, rfl⟩ := h
      rfl
  subst hv
  refine ⟨rfl, rfl, rfl, Book.ext rfl rfl (funext fun m' => ?_) rfl rfl rfl rfl rfl rfl rfl rfl rfl⟩
  simp only [VaultState.book, VaultState.reserved, VaultState.withVault, update_apply]
  by_cases hm : s.vault.assetMint = m'
  · simp [hm]
  · simp [hm, Ne.symm hm]

theorem debitRedeem_ok {delta : ℕ} {v : Vault} (h : debitRedeem s.vault delta = .ok v) :
    delta ≤ s.book.assets ∧
      Adjusted s (s.withVault v) { s.book with assets := s.book.assets - delta } := by
  simp only [debitRedeem, bind_eq_ok, sub_eq_ok, pure_eq_ok] at h
  obtain ⟨_, ⟨hle, rfl⟩, rfl⟩ := h
  exact ⟨hle, rfl, rfl, rfl, rfl⟩

/-! ### The approval -/

/-- What the checks of an approval establish. -/
structure Approvable (s : VaultState) (ctx : ApproveRequest) (r : Request) (y : Mint Pubkey) :
    Prop where
  found : s.requests.lookup ctx.request = some r
  state : r.requestState = .pending
  asset : r.assetMintAddress = ctx.assetMint
  share : r.shareMintAddress = ctx.shareMint
  primary : s.vault.assetMint = ctx.assetMint
  reserve : s.vault.vaultTokenAccount = ctx.vaultTokenAccount
  pendingVault : s.vault.pendingVault = ctx.pendingVault
  mint : s.token.mints ctx.shareMint = some y
  mem : ctx.shareMint ∈ s.terms.shareMints
  fee : ∃ x, s.token.mints ctx.assetMint = some x ∧ x.epochFeeBps = 0

theorem checkSettlementAccounts_ok {ctx : ApproveRequest} {u : Unit}
    (h : checkSettlementAccounts s ctx = .ok u) :
    s.vault.assetMint = ctx.assetMint ∧ s.vault.vaultTokenAccount = ctx.vaultTokenAccount ∧
      s.vault.pendingVault = ctx.pendingVault := by
  unfold checkSettlementAccounts at h
  split at h
  · next hp =>
    simp only [bind_eq_ok, ensure_eq_ok] at h
    obtain ⟨-, hreserve, hpending⟩ := h
    exact ⟨by simpa [Vault.isPrimaryAsset] using hp, hreserve, hpending⟩
  · simp only [bind_eq_ok] at h
    obtain ⟨_, -, _, -, _, -, h⟩ := h
    cases h

theorem ApproveRequest.Accepted.approvable (hcoherent : s.terms.Coherent) {ctx : ApproveRequest}
    {args : ApproveRequestArgs} (h : ctx.Accepted s args remaining r y context) :
    Approvable s ctx r y ∧ context = s.requestContext ctx.shareMint := by
  obtain ⟨x, hx, -, hfee⟩ := h.assetMint
  obtain ⟨hprimary, hreserve, hpending⟩ := checkSettlementAccounts_ok h.accounts
  obtain ⟨hmem, hc⟩ := validateRequestShareMint_ok hcoherent h.context
  exact ⟨⟨h.found, h.pending, h.asset, h.share, hprimary, hreserve, hpending, h.shareMint, hmem, x,
    hx, hfee⟩, hc⟩

/-- The reserve escrows nothing. -/
theorem Terms.Valid.reserve_not_escrow {t : Terms} (hv : t.Valid token) (m : Pubkey) :
    t.pendingVaultOf m ≠ some t.vaultTokenAccount := by
  intro hm
  have hholds := hv.holds_pendingVaultOf hm
  obtain rfl := (hholds.unique hv.reserve.holds).1
  rw [Terms.pendingVaultOf_primary, Option.some.injEq] at hm
  exact hv.reserve_ne hm.symm

theorem approveDeposit_step (hm : s.Minting) {ctx : ApproveRequest} {x : Settlement} {v : Vault}
    {request : Request} (happ : Approvable s ctx r y) (ht : r.requestType = .deposit)
    (hrequest : request.order = { r.order with amount := x.claimableAmount, stage := .claimable })
    (hok : s.RequestOk request)
    (hsettle : settleDeposit s ctx (s.requestContext ctx.shareMint) r (s.price ctx.shareMint) y
      remaining = .ok x)
    (hcredit : creditDeposit x.state.vault x.balanceDelta r.amount = .ok v)
    (h : decrementPendingRequests { x.state with
      vault := v
      requests := x.state.requests.insert ctx.request request } = .ok s') :
    s'.requests = s.requests.insert ctx.request request ∧
      Tracked s (.approved ctx.request) s' := by
  obtain ⟨s₁, token, hx, hadj, hspent, hshares, hguard⟩ :=
    settleDeposit_ok hm.coherent happ.mem happ.mint hsettle
  rw [hx] at hcredit h
  have hprimary : (s₁.put token s.requests).vault.assetMint = r.assetMintAddress := by
    rw [happ.asset, ← happ.primary]
    exact congrArg Terms.assetMint hadj.terms
  have hcred := creditDeposit_ok hcredit
  rw [hprimary] at hcred
  have hdec : Adjusted (((s₁.put token s.requests).withVault v).put token
    (s.requests.insert ctx.request request)) s' _ := decrementPendingRequests_ok h
  have hput : (((s₁.put token s.requests).withVault v).put token
    (s.requests.insert ctx.request request)).terms = s.terms := hcred.terms.trans hadj.terms
  have hterms : s'.terms = s.terms := hdec.terms.trans hput
  have hg : Guarded s.key s.token token := hspent.shape.guarded s.key
  have hg' : Guarded s.key s.token s'.token := by
    rw [hdec.token]
    exact hg
  -- the request is of the primary asset, so the escrow it leaves is the primary one
  have hescrow : s.terms.pendingVaultOf r.assetMintAddress = some ctx.pendingVault := by
    rw [happ.asset, ← happ.primary, ← happ.pendingVault]
    exact Terms.pendingVaultOf_primary s.terms
  refine ⟨hdec.requests, .of_moved r.assetMintAddress 0 r.amount
    (hm.of_insert hterms hg' (.inr (VaultState.requests_ne_empty happ.found)) hok hdec.requests)
    hterms hg' (fun esc esc' hesc => ?_) fun hv => ?_⟩
  -- the book: the three writes are one step of the ledger of requests
  · rw [hdec.bookAt, hcred.book_put, hadj.book_put, VaultState.predictedBook,
      VaultState.supply_eq hput fun m _ => hspent.supply m, VaultState.unit_eq hm hput hg,
      mapVal_insert, hrequest, ← happ.share]
    rw [← happ.share] at hshares hguard
    refine Step.approveDeposit (B := s.bookAt esc) (VaultState.lookup_book happ.found) ?_ ?_
      (fun hpl => ?_) ?_ hesc hguard
    · simp [Request.order, ht, RequestType.side]
    · simp [Request.order, happ.state, RequestState.stage]
    · exact VaultState.share_of_plain
        (show r.shareMintAddress ∈ _ by rw [happ.share]; exact happ.mem) hpl
    · show x.claimableAmount =
        sharesFor (s.book.unit r.shareMintAddress) (s.book.price r.shareMintAddress) _
      rw [← price_eq_book, happ.share]
      rwa [happ.share] at hshares
  -- the escrow: what was spent went to the reserve and to the fees
  · have hmoved := VaultState.escrow_spent hv hput hescrow hspent
    rwa [← hdec.escrow] at hmoved

theorem approveRedeem_step (hm : s.Minting) {ctx : ApproveRequest} {x : Settlement} {v : Vault}
    {request : Request} (happ : Approvable s ctx r y) (ht : r.requestType = .redeem)
    (hrequest : request.order = { r.order with amount := x.claimableAmount, stage := .claimable })
    (hok : s.RequestOk request)
    (hsettle : settleRedeem s ctx (s.requestContext ctx.shareMint) r (s.price ctx.shareMint) y
      remaining = .ok x)
    (hdebit : debitRedeem x.state.vault x.balanceDelta = .ok v)
    (h : decrementPendingRequests { x.state with
      vault := v
      requests := x.state.requests.insert ctx.request request } = .ok s') :
    s'.requests = s.requests.insert ctx.request request ∧
      Tracked s (.approved ctx.request) s' := by
  obtain ⟨s₁, token₁, token, fee, hx, hadj, hspent, htr, hvalued, hguard⟩ :=
    settleRedeem_ok hm.coherent happ.mem happ.mint hsettle
  rw [hx] at hdebit h
  obtain ⟨hcovered, hdeb⟩ := debitRedeem_ok hdebit
  have hdec : Adjusted (((s₁.put token s.requests).withVault v).put token
    (s.requests.insert ctx.request request)) s' _ := decrementPendingRequests_ok h
  have hput : (((s₁.put token s.requests).withVault v).put token
    (s.requests.insert ctx.request request)).terms = s.terms := hdeb.terms.trans hadj.terms
  have hterms : s'.terms = s.terms := hdec.terms.trans hput
  have hg : Guarded s.key s.token token := (hspent.shape.trans htr.shape).guarded s.key
  have hg' : Guarded s.key s.token s'.token := by
    rw [hdec.token]
    exact hg
  -- a settled redemption burnt its shares when it was opened
  have hsupply : ∀ m, token.supply m = s.token.supply m := fun m => by
    rw [htr.spent.supply m, hspent.supply m]
  have hescrow : s.terms.pendingVaultOf r.assetMintAddress = some ctx.pendingVault := by
    rw [happ.asset, ← happ.primary, ← happ.pendingVault]
    exact Terms.pendingVaultOf_primary s.terms
  obtain ⟨asset, hasset, hfee⟩ := happ.fee
  refine ⟨hdec.requests, .of_moved r.assetMintAddress x.claimableAmount 0
    (hm.of_insert hterms hg' (.inr (VaultState.requests_ne_empty happ.found)) hok hdec.requests)
    hterms hg' (fun esc esc' hesc => ?_) fun hv => ?_⟩
  -- the book: the total must have covered the assets before fees
  · rw [hadj.book_put] at hcovered
    rw [hdec.bookAt, hdeb.book_put, hadj.book_put, VaultState.predictedBook,
      VaultState.supply_eq hput fun m _ => hsupply m, VaultState.unit_eq hm hput hg,
      mapVal_insert, hrequest, ← happ.share]
    rw [← happ.share] at hvalued hguard
    refine Step.approveRedeem (B := s.bookAt esc) (VaultState.lookup_book happ.found) ?_ ?_
      (fun hpl => ?_) ?_ hcovered hesc hguard
    · simp [Request.order, ht, RequestType.side]
    · simp [Request.order, happ.state, RequestState.stage]
    · exact VaultState.share_of_plain
        (show r.shareMintAddress ∈ _ by rw [happ.share]; exact happ.mem) hpl
    · show x.balanceDelta =
        worth (s.book.unit r.shareMintAddress) r.amount (s.book.price r.shareMintAddress)
      rw [← price_eq_book, happ.share]
      rwa [happ.share] at hvalued
  -- the escrow: the reserve is none, and so the net assets are what it gained
  · have hreserve : ∀ m, s.terms.pendingVaultOf m ≠ some ctx.vaultTokenAccount := by
      rw [← happ.reserve]
      exact hv.reserve_not_escrow
    rw [← happ.asset] at htr hasset
    have hmoved := VaultState.escrow_received hv hput hescrow hreserve hspent htr hasset hfee
    rwa [← hdec.escrow] at hmoved

/-- Advancing the queue first makes no difference to an approval. -/
theorem Approvable.adjusted {ctx : ApproveRequest} (h : Approvable s ctx r y)
    (hq : Requeued s s') : Approvable s' ctx r y where
  found := by rw [hq.adjusted.requests, h.found]
  state := h.state
  asset := h.asset
  share := h.share
  primary := by rw [hq.vault, h.primary]
  reserve := by rw [hq.vault, h.reserve]
  pendingVault := by rw [hq.vault, h.pendingVault]
  mint := by rw [hq.adjusted.token, h.mint]
  mem := by rw [hq.terms]; exact h.mem
  fee := by rw [hq.adjusted.token]; exact h.fee

theorem approveRequest_ok (hm : s.Minting) {ctx : ApproveRequest} {args : ApproveRequestArgs}
    (h : approveRequest s ctx args remaining = .ok s') :
    RequestEffect s s' ctx.request (.approved ctx.request) ∧
      Tracked s (.approved ctx.request) s' := by
  obtain ⟨r, y, context, s₁, x, v, hacc, hsettles⟩ := approveRequest_iff.1 h
  obtain ⟨happ, rfl⟩ := hacc.approvable hm.coherent
  have hrq := advanceQueue_ok hsettles.queue
  have h := hsettles.state
  have hq := hrq.adjusted
  have hm₁ := hm.adjusted hq
  have happ₁ := happ.adjusted hrq
  -- the queue moves first and leaves the price the request settles at
  have hprice : settlementNav (s.requestContext ctx.shareMint).trancheNav s.vault.nav =
      s₁.price ctx.shareMint := by
    rw [VaultState.price, hrq.requestContext, hrq.vault]
  simp only [hprice] at h
  have hok₁ := hm₁.requests _ r happ₁.found
  set request : Request := { r with
    amount := x.claimableAmount
    price := s₁.price ctx.shareMint
    requestState := .claimable } with hrequest
  -- the two sides of a settlement differ in all but the request they leave
  have hstep : s'.requests = s₁.requests.insert ctx.request request ∧
      Tracked s₁ (.approved ctx.request) s' := by
    have hok : s₁.RequestOk request := ⟨hok₁.vault, hok₁.owner, hok₁.shareMint⟩
    cases ht : r.requestType with
    | deposit =>
      obtain ⟨hsettle, hsettled⟩ := hsettles.deposit ht
      rw [hprice, ← hrq.requestContext ctx.shareMint] at hsettle
      exact approveDeposit_step hm₁ happ₁ ht rfl hok hsettle hsettled h
    | redeem =>
      obtain ⟨hsettle, hsettled⟩ := hsettles.redeem ht
      rw [hprice, ← hrq.requestContext ctx.shareMint] at hsettle
      exact approveRedeem_step hm₁ happ₁ ht rfl hok hsettle hsettled h
  obtain ⟨hreq, htracked⟩ := hstep
  rw [hq.requests] at hreq
  exact ⟨.approved happ.found happ.state hreq, htracked.of_adjusted hq⟩

/-! ### Instant settlements -/

/-- What the checks of an instant settlement establish. -/
structure InstantReady (s : VaultState) (user assetMint shareMint vaultTokenAccount : Pubkey)
    (share : Mint Pubkey) : Prop where
  user : user ≠ s.key
  primary : s.vault.assetMint = assetMint
  ownShare : s.vault.shareMint = shareMint
  reserve : s.vault.vaultTokenAccount = vaultTokenAccount
  mint : s.token.mints shareMint = some share
  plain : s.vault.trancheConfig = none

theorem InstantAccepted.ready {user assetMint shareMint vaultTokenAccount userAssetAccount
    userShareAccount : Pubkey} {assetTokenProgram shareTokenProgram : TokenProgram}
    {asset share : Mint Pubkey} {inst : InstantSettlement}
    (h : InstantAccepted s user assetMint shareMint vaultTokenAccount userAssetAccount
      userShareAccount assetTokenProgram shareTokenProgram asset share inst) :
    InstantReady s user assetMint shareMint vaultTokenAccount share :=
  ⟨h.signer, h.primary, h.ownShare, h.reserve, h.shareExists, h.plain⟩

/-- A vault whose account names no tranche configuration has none. -/
theorem trancheConfig_of_plain (hc : s.terms.Coherent) (h : s.vault.trancheConfig = none) :
    s.trancheConfig = none := by
  cases htc : s.trancheConfig with
  | none => rfl
  | some tc =>
    have := (hc.tranched _ (VaultState.terms_tranches htc)).1
    exact absurd (h.symm.trans this) (by simp)

theorem InstantReady.book {user assetMint shareMint vaultTokenAccount : Pubkey}
    (h : InstantReady s user assetMint shareMint vaultTokenAccount y)
    (hc : s.terms.Coherent) :
    s.book.tranches = none ∧ shareMint ∈ s.terms.shareMints ∧ s.book.share = shareMint ∧
      s.book.unit shareMint = 10 ^ y.decimals := by
  have htc := trancheConfig_of_plain hc h.plain
  have hmem : shareMint ∈ s.terms.shareMints := by
    rw [← h.ownShare]
    exact hc.shareMint_mem
  exact ⟨by simp [VaultState.book, htc], hmem, h.ownShare,
    by simp [VaultState.book, hmem, unit_of_some h.mint]⟩

/-- The state an instant settlement leaves. -/
def VaultState.settleInstantly (s : VaultState)
    (users : Pubkey → Option InstantSettlementUser) (token : Ledger Pubkey)
    (start used total : ℕ) : VaultState :=
  { s with
    instantUsers := users
    token := token
    vault := { s.vault with
      redemptionWindowStartSlot := start
      redemptionWindowAmount := used
      totalAssetBalance := total } }

theorem settleInstantly_bookAt {users : Pubkey → Option InstantSettlementUser}
    {start used total : ℕ}
    (hm : s.Minting) (hg : Guarded s.key s.token token) (esc : Pubkey → ℕ) :
    (s.settleInstantly users token start used total).bookAt esc = { s.book with
      escrow := esc
      supply := (s.settleInstantly users token start used total).book.supply
      assets := total } :=
  Book.ext rfl rfl rfl rfl rfl rfl rfl
    (VaultState.unit_eq hm
      (rfl : (s.settleInstantly users token start used total).terms = s.terms) hg)
    rfl rfl rfl rfl

theorem instantDeposit_ok (hm : s.Minting) {ctx : InstantDeposit} {amount : ℕ}
    (h : instantDeposit s ctx amount remaining = .ok s') :
    s'.requests = s.requests ∧ Tracked s .instantDeposit s' := by
  obtain ⟨asset, share, inst, users, fee, net, shares, token₁, token₂, token₃, hi⟩ :=
    instantDeposit_iff.1 h
  have hready := hi.accepted.ready
  have hpay := hi.feePaid
  have htransfer := hi.paid
  obtain rfl := hi.state
  obtain ⟨hplain, hmem, hshare, hunit⟩ := hready.book hm.coherent
  have hspent := (payInstantFee_ok hpay).trans (transferChecked_ok htransfer).spent
  have hsrc := (transferChecked_ok htransfer).src_holds
  rw [(payInstantFee_ok hpay).shape.holds_iff] at hsrc
  have hminted := mintTo_ok hi.minted
  have hg : Guarded s.key s.token token₃ := (hspent.shape.trans hminted.shape).guarded s.key
  have hmid : (s.put token₂ s.requests).book.supply = s.book.supply :=
    VaultState.supply_eq rfl fun m _ => hspent.supply m
  have hsupply : ∀ start used total,
      (s.settleInstantly users token₃ start used total).book.supply = _ := fun _ _ _ =>
    VaultState.supply_add (s := s.put token₂ s.requests) rfl hmem hminted.issued
  refine ⟨rfl, .of_kept (hm.of_terms rfl hg (fun _ _ h => h) fun h => h) rfl hg
    (fun esc esc' hesc => ?_) fun hv => VaultState.escrow_mono rfl fun m a ha => ?_⟩
  · show Step (s.bookAt esc) _ ((s.settleInstantly users token₃ _ _ _).bookAt esc')
    -- the book: minted shares at the price of the deposit net of fees
    rw [settleInstantly_bookAt hm hg, hsupply, hmid, ← hshare]
    refine Step.instantDeposit (B := s.bookAt esc) hplain ?_ hesc
    show shares = sharesFor (s.book.unit s.book.share) s.book.nav net
    rw [hshare, hunit]
    exact (calculateShares_ok hi.priced).2.1
  -- no escrow is the account of the user, who does not act for the vault
  · have hne := (hv.holds_pendingVaultOf ha).ne_of_owner hsrc (Ne.symm hready.user)
    exact (hspent.balance_of_ne a hne).trans (hminted.balance_le a)

theorem instantRedeem_ok (hm : s.Minting) {ctx : InstantRedeem} {shares : ℕ}
    (h : instantRedeem s ctx shares remaining = .ok s') :
    s'.requests = s.requests ∧ Tracked s .instantRedeem s' := by
  obtain ⟨asset, share, inst, users, gross, fee, extra, v, token₁, token₂, token₃, hi⟩ :=
    instantRedeem_iff.1 h
  have hready := hi.accepted.ready
  have hgross := hi.valued
  have hcovered := hi.total
  obtain rfl := hi.state
  obtain ⟨start, used, rfl⟩ := Vault.consumeRedemptionRollingLimit_ok hi.limit
  obtain ⟨hplain, hmem, hshare, hunit⟩ := hready.book hm.coherent
  have hburned := burn_ok hi.burned
  have hspent := (payInstantFee_ok hi.feePaid).trans (transferChecked_ok hi.paid).spent
  have hg : Guarded s.key s.token token₃ := (hburned.shape.trans hspent.shape).guarded s.key
  have hput : (s.put token₁ s.requests).terms = s.terms := rfl
  obtain ⟨hsub, hlive⟩ := VaultState.supply_sub hput hmem hburned.supply hburned.supply_of_ne
  have hsupply : ∀ start used total,
      (s.settleInstantly users token₃ start used total).book.supply = _ := fun _ _ _ =>
    VaultState.supply_eq (s := s.put token₁ s.requests) rfl fun m _ => hspent.supply m
  refine ⟨rfl, .of_kept (hm.of_terms rfl hg (fun _ _ h => h) fun h => h) rfl hg
    (fun esc esc' hesc => ?_) fun hv => VaultState.escrow_mono rfl fun m a ha => ?_⟩
  · show Step (s.bookAt esc) _ ((s.settleInstantly users token₃ _ _ _).bookAt esc')
    -- the book: burnt shares against the assets before fees
    rw [settleInstantly_bookAt hm hg, hsupply, hsub, ← hshare]
    refine Step.instantRedeem (B := s.bookAt esc) hplain ?_ hcovered
      (by rw [← hshare] at hlive; exact hlive)
      hesc
    show gross = worth (s.book.unit s.book.share) shares s.book.nav
    rw [hshare, hunit]
    exact (calculateAssets_eq_ok.1 hgross).2.2.2.2
  · have hholds := hv.holds_pendingVaultOf ha
    -- an escrow is neither the reserve that pays nor the account whose shares are burnt
    have hne : a ≠ ctx.vaultTokenAccount := by
      rintro rfl
      rw [← hready.reserve] at ha
      exact hv.reserve_not_escrow m ha
    have hne' := hholds.ne_of_owner hburned.src_holds (Ne.symm hready.user)
    rw [← hburned.balance_of_ne a hne']
    exact hspent.balance_of_ne a hne

end AsyncVault
