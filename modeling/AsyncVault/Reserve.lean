/-
AsyncVault/Reserve.lean

The ledger of the primary reserve.

`total_asset_balance` counts every settled unit of the primary asset, and does
not follow it when venues move it: what is in the reserve, what open positions
record and what was withdrawn to outside recipients add up to it, once what
third parties sent to the reserve is taken off (`reserve_ledger`).

Each transaction moves the two sides by the same amount (`Accounted`).  A fee is
part of what leaves the reserve, so the equation needs its recipients to be
others than the vault (`PaysOutward`).
-/
import AsyncVault.Custody
import AsyncVault.ManagedScenario

namespace AsyncVault

open Checked TokenLedger KeyedStore OrderBook Function Machine

variable {c c' : VaultState} {s s' s₀ : ManagedState} {k m a src : Pubkey} {r : Request} {n : ℕ}
variable {token token' : Ledger Pubkey} {program : TokenProgram} {remaining : List AccountInfo}
variable {verify : MerkleCheck} {tr : List (Transition ManagedState ManagedAction)}

/-! ### Recipients -/

/-- No fee goes to the vault itself. -/
structure VaultState.PaysOutward (c : VaultState) : Prop where
  feeRecipient : c.vault.feeRecipient ≠ c.key
  protocolFeeRecipient : c.vault.protocolFeeRecipient ≠ c.key
  protocolFeeConfig : ∀ config, c.protocolFeeConfig = some config →
    config.protocolFeeRecipient ≠ c.key

/-- And neither does a withdrawal, if the action is one. -/
structure ManagedState.PaysOutward (s : ManagedState) (b : ManagedAction) : Prop where
  fees : s.core.PaysOutward
  withdrawals : ∀ ctx amount v, b = .venue (.withdrawAssets ctx amount) →
    s.vaultVenues ctx.venueEntry = some v → v.recipientAuthority ≠ s.core.key

theorem resolveProtocolFeeRecipient_outward (hp : c.PaysOutward) {info : Option AccountInfo}
    {recipient : Pubkey} {consumed : Bool}
    (h : c.resolveProtocolFeeRecipient info = .ok (recipient, consumed)) : recipient ≠ c.key := by
  unfold VaultState.resolveProtocolFeeRecipient at h
  split at h
  · next config hconfig =>
    split at h
    · simp only [bind_eq_ok, pure_eq_ok, Prod.mk.injEq] at h
      obtain ⟨-, -, rfl, -⟩ := h
      exact hp.protocolFeeConfig _ hconfig
    · obtain ⟨rfl, -⟩ := Prod.mk.inj (pure_eq_ok.1 h)
      exact hp.protocolFeeRecipient
  · obtain ⟨rfl, -⟩ := Prod.mk.inj (pure_eq_ok.1 h)
    exact hp.protocolFeeRecipient

/-- A token account of another owner is no account of the vault. -/
theorem validateTokenAccountOwner_ne {info : AccountInfo} {owner : Pubkey} {u : Unit}
    (h : c.validateTokenAccountOwner info owner = .ok u) (hraw : info.rawData = none)
    (hout : owner ≠ c.key) (ha : c.token.Holds a m c.key) : a ≠ info.key := by
  rintro rfl
  obtain ⟨x, hx, -, howner⟩ := ha
  simp only [VaultState.validateTokenAccountOwner, hraw, hx, Option.map_some] at h
  exact hout ((require_eq_ok.1 h).symm.trans howner)

/-- The account of a fee that is due is no account of the vault. -/
structure PaidElsewhere (a : Pubkey) (fee : ℕ) (account : Option AccountInfo) : Prop where
  due : account = none → fee = 0
  elsewhere : ∀ info, account = some info → info.rawData = none → a ≠ info.key

theorem feeRecipientAccount_elsewhere (hp : c.PaysOutward) (ha : c.token.Holds a m c.key)
    {fee : ℕ} {account : Option AccountInfo} {rest : List AccountInfo}
    (h : feeRecipientAccount c fee remaining = .ok (account, rest)) :
    PaidElsewhere a fee account := by
  unfold feeRecipientAccount at h
  split at h
  · simp only [bind_eq_ok, pure_eq_ok, Prod.mk.injEq] at h
    obtain ⟨info, -, _, howner, rfl, -⟩ := h
    refine ⟨by rintro ⟨⟩, fun info' hi hraw => ?_⟩
    obtain rfl := Option.some.inj hi
    exact validateTokenAccountOwner_ne howner hraw hp.feeRecipient ha
  · next hzero =>
    obtain ⟨rfl, -⟩ := Prod.mk.inj (pure_eq_ok.1 h)
    exact ⟨fun _ => by omega, by rintro _ ⟨⟩⟩

theorem protocolFeeAccount_elsewhere (hp : c.PaysOutward) (ha : c.token.Holds a m c.key)
    {fee : ℕ} {account : Option AccountInfo}
    (h : protocolFeeAccount c fee remaining = .ok account) : PaidElsewhere a fee account := by
  unfold protocolFeeAccount at h
  split at h
  · simp only [bind_eq_ok, pure_eq_ok] at h
    obtain ⟨⟨recipient, consumed⟩, hrecipient, info, -, _, howner, rfl⟩ := h
    refine ⟨by rintro ⟨⟩, fun info' hi hraw => ?_⟩
    obtain rfl := Option.some.inj hi
    exact validateTokenAccountOwner_ne howner hraw
      (resolveProtocolFeeRecipient_outward hp hrecipient) ha
  · next hzero =>
    obtain rfl := pure_eq_ok.1 h
    exact ⟨fun _ => by omega, by rintro _ ⟨⟩⟩

/-! ### Fees -/

/-- A fee paid elsewhere comes out of `src` alone. -/
theorem payFee_paid {account : Option AccountInfo} {authority : Pubkey}
    (hout : PaidElsewhere a n account)
    (h : payFee token program src m account authority n = .ok token') :
    token'.balance a + (if src = a then n else 0) = token.balance a := by
  unfold payFee at h
  cases account with
  | none =>
    obtain rfl := pure_eq_ok.1 h
    rw [hout.due rfl]
    simp
  | some info =>
    simp only [VaultState.transferToInfo, bind_eq_ok, require_eq_ok, Option.isNone_iff_eq_none,
      cpi_eq_ok] at h
    obtain ⟨-, hraw, h⟩ := h
    exact (transferChecked_ok h).balance_paid (hout.elsewhere info rfl hraw)

theorem paySettlementFee_paid (hp : c.PaysOutward) {m' : Pubkey} (ha : c.token.Holds a m' c.key)
    {fee : ℕ} (h : paySettlementFee c program src m fee remaining = .ok token) :
    token.balance a + (if src = a then fee else 0) = c.token.balance a := by
  simp only [paySettlementFee, bind_eq_ok] at h
  obtain ⟨⟨protocolFee, recipientFee⟩, hsplit, ⟨account, rest⟩, haccount, protocolAccount,
    hprotocol, token₁, h₁, h₂⟩ := h
  have hsum := splitProtocolFee_add hsplit
  have hpaid₁ := payFee_paid (feeRecipientAccount_elsewhere hp ha haccount) h₁
  have hpaid₂ := payFee_paid (protocolFeeAccount_elsewhere hp ha hprotocol) h₂
  by_cases hsrc : src = a
  · simp only [hsrc, if_true] at hpaid₁ hpaid₂ hsum ⊢
    omega
  · simp only [hsrc, if_false, Nat.add_zero] at hpaid₁ hpaid₂ ⊢
    exact hpaid₂.trans hpaid₁

theorem payInstantFee_paid (hp : c.PaysOutward) {m' authority : Pubkey}
    (ha : c.token.Holds a m' c.key) {fee : ℕ} {account protocolAccount : Option Pubkey}
    (h : payInstantFee c token program src m authority fee account protocolAccount remaining =
      .ok token') : token'.balance a + (if src = a then fee else 0) = token.balance a := by
  simp only [payInstantFee, bind_eq_ok] at h
  obtain ⟨⟨protocolFee, recipientFee⟩, hsplit, token₁, h₁, h₂⟩ := h
  have hsum := splitProtocolFee_add hsplit
  -- no recipient of a fee is the vault, so `a` is debited or left alone
  have hpaid₁ : token₁.balance a + (if src = a then recipientFee else 0) = token.balance a := by
    split at h₁
    · simp only [bind_eq_ok, cpi_eq_ok] at h₁
      obtain ⟨dst, -, x, hx, h₁⟩ := h₁
      refine (transferChecked_ok h₁).balance_paid ?_
      exact ha.ne_of_owner (VaultState.holds_of_tokenAccount hx) hp.feeRecipient.symm
    · next hzero =>
      obtain rfl := pure_eq_ok.1 h₁
      obtain rfl : recipientFee = 0 := by simpa using hzero
      simp
  have hpaid₂ : token'.balance a + (if src = a then protocolFee else 0) = token₁.balance a := by
    split at h₂
    · simp only [bind_eq_ok, cpi_eq_ok] at h₂
      obtain ⟨⟨recipient, consumed⟩, hrecipient, dst, -, x, hx, h₂⟩ := h₂
      refine (transferChecked_ok h₂).balance_paid ?_
      exact ha.ne_of_owner (VaultState.holds_of_tokenAccount hx)
        (resolveProtocolFeeRecipient_outward hp hrecipient).symm
    · next hzero =>
      obtain rfl := pure_eq_ok.1 h₂
      obtain rfl : protocolFee = 0 := by simpa using hzero
      simp
  -- the two parts sum to the fee
  by_cases hsrc : src = a
  · simp only [hsrc, if_true] at hpaid₁ hpaid₂ hsum ⊢
    omega
  · simp only [hsrc, if_false, Nat.add_zero] at hpaid₁ hpaid₂ ⊢
    exact hpaid₂.trans hpaid₁

/-! ### Both sides -/

/-- What is in the primary reserve. -/
def VaultState.reserveBalance (c : VaultState) : ℕ := c.token.balance c.vault.vaultTokenAccount

/-- The reserve and the recorded total moved alike, but for what was `donated`. -/
structure Accounted (c c' : VaultState) (donated : ℕ) : Prop where
  reserve : c'.vault.vaultTokenAccount = c.vault.vaultTokenAccount
  asset : c'.vault.assetMint = c.vault.assetMint
  share : c'.vault.shareMint = c.vault.shareMint
  balanced : c'.reserveBalance + c.vault.totalAssetBalance =
    c.reserveBalance + c'.vault.totalAssetBalance + donated

/-- Where the terms and the total stay, only the reserve's balance matters. -/
theorem Accounted.of_terms (ht : c'.terms = c.terms)
    (htotal : c'.vault.totalAssetBalance = c.vault.totalAssetBalance)
    (hbalance : c'.token.balance c.vault.vaultTokenAccount =
      c.token.balance c.vault.vaultTokenAccount + n) : Accounted c c' n := by
  have hreserve : c'.vault.vaultTokenAccount = c.vault.vaultTokenAccount :=
    congrArg Terms.vaultTokenAccount ht
  refine ⟨hreserve, congrArg Terms.assetMint ht, congrArg Terms.shareMint ht, ?_⟩
  simp only [VaultState.reserveBalance, hreserve, hbalance, htotal]
  omega

/-! ### Approvals -/

/-- A settled deposit reaches the reserve net of its fee. -/
theorem settleDeposit_reserve (hp : c.PaysOutward) {context : RequestShareMintContext}
    {ctx : ApproveRequest} {nav : ℕ} {share y : Mint Pubkey} {x : Settlement}
    (hreserve : c.token.Holds ctx.vaultTokenAccount ctx.assetMint c.key)
    (hne : ctx.pendingVault ≠ ctx.vaultTokenAccount)
    (hy : c.token.mints ctx.assetMint = some y) (hfee : y.epochFeeBps = 0)
    (h : settleDeposit c ctx context r nav share remaining = .ok x) :
    x.state.token.balance ctx.vaultTokenAccount =
        c.token.balance ctx.vaultTokenAccount + x.balanceDelta ∧
      x.state.vault = c.vault := by
  obtain ⟨_, _, _, _, _, token₁, token, hs, rfl⟩ := settleDeposit_iff.1 h
  obtain ⟨tc, rfl, -⟩ := updateTrancheSupplyCache_terms hs.cached
  have hpaid := paySettlementFee_paid
    ⟨hp.feeRecipient, hp.protocolFeeRecipient, hp.protocolFeeConfig⟩ hreserve hs.feePaid
  rw [if_neg hne, Nat.add_zero] at hpaid
  obtain ⟨y', hy', -, hdst⟩ := (transferChecked_ok hs.paid).balance_dst hne
  rw [(paySettlementFee_ok hs.feePaid).mints] at hy'
  obtain rfl : y' = y := Option.some.inj (hy'.symm.trans hy)
  refine ⟨?_, rfl⟩
  show token.balance ctx.vaultTokenAccount = _
  rw [hdst, Mint.transferFee_eq_zero hfee, Nat.sub_zero, hpaid]

/-- A settled redemption leaves the reserve with its fee. -/
theorem settleRedeem_reserve (hp : c.PaysOutward) {context : RequestShareMintContext}
    {ctx : ApproveRequest} {nav : ℕ} {share : Mint Pubkey} {x : Settlement}
    (hreserve : c.token.Holds ctx.vaultTokenAccount ctx.assetMint c.key)
    (hne : ctx.pendingVault ≠ ctx.vaultTokenAccount)
    (h : settleRedeem c ctx context r nav share remaining = .ok x) :
    x.state.token.balance ctx.vaultTokenAccount + x.balanceDelta =
        c.token.balance ctx.vaultTokenAccount ∧
      ∃ start used, x.state.vault = { c.vault with
        redemptionWindowStartSlot := start
        redemptionWindowAmount := used } := by
  obtain ⟨gross, fee, net, _, _, v, token₁, token, hs, rfl⟩ := settleRedeem_iff.1 h
  obtain ⟨tc, rfl, -⟩ := updateTrancheSupplyCache_terms hs.cached
  obtain ⟨start, used, rfl⟩ := Vault.consumeRedemptionRollingLimit_ok hs.charged
  have hpaid := paySettlementFee_paid
    ⟨hp.feeRecipient, hp.protocolFeeRecipient, hp.protocolFeeConfig⟩ hreserve hs.feePaid
  rw [if_pos rfl] at hpaid
  have hsum := getWithdrawalFeeAndNet_add hs.parts
  have hnet := (transferChecked_ok hs.paid).balance_src hne.symm
  refine ⟨?_, start, used, rfl⟩
  simp only at hsum hpaid hnet ⊢
  omega

theorem approveRequest_accounted (hw : c.WellFormed) (hp : c.PaysOutward) {ctx : ApproveRequest}
    {args : ApproveRequestArgs} (h : approveRequest c ctx args remaining = .ok c') :
    Accounted c c' 0 := by
  have hterms := (approveRequest_tally hw.requests h).1.terms
  obtain ⟨r, share, context, c₁, x, v, hacc, hsettles⟩ := approveRequest_iff.1 h
  have happ := (hacc.approvable hw.terms.coherent).1
  obtain ⟨y, hy, hfee⟩ := happ.fee
  obtain ⟨ext, tc, rfl, -⟩ := advanceQueue_ok hsettles.queue
  have hstate := hsettles.state
  simp only [decrementPendingRequests, bind_eq_ok, pure_eq_ok] at hstate
  obtain ⟨pending, -, rfl⟩ := hstate
  have hholds : c.token.Holds ctx.vaultTokenAccount ctx.assetMint c.key := by
    rw [← happ.reserve, ← happ.primary]
    exact hw.terms.reserve.holds
  have hne : ctx.pendingVault ≠ ctx.vaultTokenAccount := by
    rw [← happ.reserve, ← happ.pendingVault]
    exact hw.terms.reserve_ne.symm
  -- advancing the queue leaves who is paid
  have hp' : VaultState.PaysOutward { c with extensions := ext, trancheConfig := tc } :=
    ⟨hp.feeRecipient, hp.protocolFeeRecipient, hp.protocolFeeConfig⟩
  have hreserve : v.vaultTokenAccount = c.vault.vaultTokenAccount :=
    congrArg Terms.vaultTokenAccount hterms
  refine ⟨hreserve, congrArg Terms.assetMint hterms, congrArg Terms.shareMint hterms, ?_⟩
  show x.state.token.balance v.vaultTokenAccount + c.vault.totalAssetBalance =
    c.token.balance c.vault.vaultTokenAccount + v.totalAssetBalance + 0
  rw [hreserve, happ.reserve]
  cases ht : r.requestType with
  | deposit =>
    obtain ⟨hsettle, hv⟩ := hsettles.deposit ht
    -- what the reserve gains is booked as gained
    obtain ⟨hbalance, hvault⟩ := settleDeposit_reserve hp' hholds hne hy hfee hsettle
    obtain ⟨-, rfl⟩ := creditDeposit_vault hv
    have htotal : x.state.vault.totalAssetBalance = c.vault.totalAssetBalance := by rw [hvault]
    simp only at hbalance ⊢
    omega
  | redeem =>
    obtain ⟨hsettle, hv⟩ := hsettles.redeem ht
    -- and what it pays as paid, fees included
    obtain ⟨hbalance, start, used, hvault⟩ := settleRedeem_reserve hp' hholds hne hsettle
    have hle := (debitRedeem_ok hv).1
    obtain rfl := debitRedeem_vault hv
    have htotal : x.state.vault.totalAssetBalance = c.vault.totalAssetBalance := by rw [hvault]
    have hle : x.balanceDelta ≤ x.state.vault.totalAssetBalance := hle
    simp only at hbalance ⊢
    omega

/-! ### Other request instructions -/

/-- An account of the vault that is no account of the request's owner. -/
theorem SharesPaid.balance (h : SharesPaid c token r) (ho : r.owner ≠ c.key)
    (ha : c.token.Holds a m c.key) : token.balance a = c.token.balance a := by
  obtain ⟨dst, hdst, hminted⟩ := h
  exact hminted.balance_of_ne a (ha.ne_of_owner hdst ho.symm)

theorem SharesTaken.balance (h : SharesTaken c token r) (ho : r.owner ≠ c.key)
    (ha : c.token.Holds a m c.key) : token.balance a = c.token.balance a := by
  obtain ⟨src, hburned⟩ := h
  exact hburned.balance_of_ne a (ha.ne_of_owner hburned.src_holds ho.symm)

theorem AssetsPaid.balance (h : AssetsPaid c token r) (ho : r.owner ≠ c.key)
    (ha : c.token.Holds a m c.key) (he : ∀ m', c.terms.pendingVaultOf m' ≠ some a) :
    token.balance a = c.token.balance a := by
  obtain ⟨program, src, dst, hsrc, hdst, -, htransferred⟩ := h
  refine htransferred.balance_of_ne a ?_ (ha.ne_of_owner hdst ho.symm)
  rintro rfl
  exact he _ hsrc

theorem AssetsTaken.balance (h : AssetsTaken c token r) (ho : r.owner ≠ c.key)
    (ha : c.token.Holds a m c.key) (he : ∀ m', c.terms.pendingVaultOf m' ≠ some a) :
    token.balance a = c.token.balance a := by
  obtain ⟨program, src, dst, hdst, htransferred, -⟩ := h
  refine htransferred.balance_of_ne a (ha.ne_of_owner htransferred.src_holds ho.symm) ?_
  rintro rfl
  exact he _ hdst

theorem Taken.balance (h : Taken c token r) (ho : r.owner ≠ c.key)
    (ha : c.token.Holds a m c.key) (he : ∀ m', c.terms.pendingVaultOf m' ≠ some a) :
    token.balance a = c.token.balance a := by
  unfold Taken at h
  split at h
  · exact h.balance ho ha he
  · exact h.balance ho ha

theorem Settled.balance (h : Settled c token r) (ho : r.owner ≠ c.key)
    (ha : c.token.Holds a m c.key) (he : ∀ m', c.terms.pendingVaultOf m' ≠ some a) :
    token.balance a = c.token.balance a := by
  unfold Settled at h
  split at h
  · exact h.balance ho ha
  · exact h.balance ho ha he

theorem Refunded.balance (h : Refunded c token r) (ho : r.owner ≠ c.key)
    (ha : c.token.Holds a m c.key) (he : ∀ m', c.terms.pendingVaultOf m' ≠ some a) :
    token.balance a = c.token.balance a := by
  unfold Refunded at h
  split at h
  · exact h.balance ho ha he
  · exact h.balance ho ha

/-- Only an approval moves an account of the vault that escrows nothing. -/
theorem RequestEffect.balance {e : Event Pubkey} (h : RequestEffect c c' k e)
    (hw : c.WellFormed) (he : e ≠ .approved k) (ha : c.token.Holds a m c.key)
    (hescrow : ∀ m', c.terms.pendingVaultOf m' ≠ some a) :
    c'.token.balance a = c.token.balance a := by
  cases h with
  | opened free state ok requests taken => exact taken.balance ok.owner ha hescrow
  | approved => exact absurd rfl he
  | claimed found state requests paid => exact paid.balance (hw.requests _ _ found).owner ha hescrow
  | refunded found state requests paid =>
    exact paid.balance (hw.requests _ _ found).owner ha hescrow
  | canceled found state requests paid =>
    exact paid.balance (hw.requests _ _ found).owner ha hescrow
  | skipped found state requests unpaid => rw [unpaid]
  | touched found requests unpaid => rw [unpaid]

/-- Only an approval moves the recorded total. -/
theorem DocketMove.total_kept {d d' : Docket} {i : RequestInstruction} (h : DocketMove d i d')
    (hi : ∀ ctx args, i ≠ .approveRequest ctx args) :
    d'.totalAssetBalance = d.totalAssetBalance := by
  cases h with
  | settled => exact absurd rfl (hi _ _)
  | opened => rfl
  | rejected => rfl
  | canceled => rfl
  | parked => rfl
  | skipped => rfl
  | claimed => rfl
  | operated => rfl

theorem execRequest_accounted (hw : c.WellFormed) (hp : c.PaysOutward) {i : RequestInstruction}
    (h : execRequest c i remaining = .ok c') : Accounted c c' 0 := by
  by_cases hi : ∃ ctx args, i = .approveRequest ctx args
  · obtain ⟨ctx, args, rfl⟩ := hi
    exact approveRequest_accounted hw hp h
  · push Not at hi
    have hterms := (execRequest_tally hw.terms.coherent hw.requests h).1.terms
    obtain ⟨d, hworked, hmove⟩ := execRequest_worked h
    have htotal := hmove.total_kept hi
    rw [← hworked.docket] at htotal
    refine .of_terms hterms htotal ((execRequest_ok hw.minting h).1.balance hw ?_
      hw.terms.reserve.holds hw.terms.reserve_not_escrow)
    cases i with
    | approveRequest ctx args => exact absurd rfl (hi ctx args)
    | _ => exact fun he => nomatch he

/-! ### Instant settlements -/

theorem instantDeposit_accounted (hw : c.WellFormed) (hp : c.PaysOutward)
    (hne : c.vault.shareMint ≠ c.vault.assetMint) {ctx : InstantDeposit} {amount : ℕ}
    (h : instantDeposit c ctx amount remaining = .ok c') : Accounted c c' 0 := by
  obtain ⟨asset, share, inst, users, fee, net, shares, token₁, token₂, token₃, hi⟩ :=
    instantDeposit_iff.1 h
  have hready := hi.accepted.ready
  have hasset := hi.accepted.assetExists
  have hfee := hi.free
  have hpay := hi.feePaid
  have htransfer := hi.paid
  have hmint := hi.minted
  obtain rfl := hi.state
  have hreserve : c.token.Holds ctx.vaultTokenAccount c.vault.assetMint c.key := by
    rw [← hready.reserve]
    exact hw.terms.reserve.holds
  have hpaid := payInstantFee_ok hpay
  have htr := transferChecked_ok htransfer
  have hsrc := htr.src_holds
  rw [hpaid.shape.holds_iff] at hsrc
  have hout : ctx.userAssetAccount ≠ ctx.vaultTokenAccount :=
    (hreserve.ne_of_owner hsrc hready.user.symm).symm
  -- the fee comes from the user, the net amount arrives whole, shares are of another mint
  have hkept := payInstantFee_paid hp hreserve hpay
  rw [if_neg hout, Nat.add_zero] at hkept
  obtain ⟨y, hy, -, hdst⟩ := htr.balance_dst hout
  rw [hpaid.mints, hasset, Option.some.injEq] at hy
  subst hy
  rw [Mint.transferFee_eq_zero hfee, Nat.sub_zero, hkept] at hdst
  have hshares := (mintTo_ok hmint).issued.balance_of_mint ctx.vaultTokenAccount _ _
    (htr.shape.holds (hpaid.shape.holds hreserve)) (by rw [← hready.ownShare]; exact hne.symm)
  refine ⟨rfl, rfl, rfl, ?_⟩
  show token₃.balance c.vault.vaultTokenAccount + c.vault.totalAssetBalance =
    c.token.balance c.vault.vaultTokenAccount + (c.vault.totalAssetBalance + net) + 0
  rw [hready.reserve, hshares, hdst]
  omega

theorem instantRedeem_accounted (hw : c.WellFormed) (hp : c.PaysOutward) {ctx : InstantRedeem}
    {shares : ℕ} (h : instantRedeem c ctx shares remaining = .ok c') : Accounted c c' 0 := by
  obtain ⟨asset, share, inst, users, gross, fee, extra, v, token₁, token₂, token₃, hi⟩ :=
    instantRedeem_iff.1 h
  have hready := hi.accepted.ready
  have hle := hi.covers
  have hcovered := hi.total
  obtain rfl := hi.state
  obtain ⟨start, used, rfl⟩ := Vault.consumeRedemptionRollingLimit_ok hi.limit
  have hreserve : c.token.Holds ctx.vaultTokenAccount c.vault.assetMint c.key := by
    rw [← hready.reserve]
    exact hw.terms.reserve.holds
  have hburned := burn_ok hi.burned
  have hdst := hi.accepted.userAsset
  have hout : ctx.vaultTokenAccount ≠ ctx.userAssetAccount :=
    hreserve.ne_of_owner hdst hready.user.symm
  have hkept := hburned.balance_of_ne _
    (hreserve.ne_of_owner hburned.src_holds hready.user.symm)
  have hfee := payInstantFee_paid hp hreserve hi.feePaid
  rw [if_pos rfl, hkept] at hfee
  have hnet := (transferChecked_ok hi.paid).balance_src hout
  refine ⟨rfl, rfl, rfl, ?_⟩
  show token₃.balance c.vault.vaultTokenAccount + c.vault.totalAssetBalance =
    c.token.balance c.vault.vaultTokenAccount + (c.vault.totalAssetBalance - gross) + 0
  rw [hready.reserve]
  have hcovered : gross ≤ c.vault.totalAssetBalance := hcovered
  omega

/-! ### NAV updates, configuration and third parties -/

/-- Performance fees are paid in shares. -/
theorem updateVaultNav_accounted (hw : c.WellFormed) (hne : c.vault.shareMint ≠ c.vault.assetMint)
    {authority : Pubkey} {u : ℕ} (h : updateVaultNav c authority u remaining = .ok c') :
    Accounted c c' 0 := by
  have hterms := (updateVaultNav_settles h).terms
  obtain ⟨version, mark, crystallized, tc, token, rfl, -, -, -, feeShares, hissued⟩ :=
    updateVaultNav_posted h
  exact .of_terms hterms rfl (hissued.balance_of_mint _ _ _ hw.terms.reserve.holds hne.symm)

theorem Reconfigured.accounted (h : Reconfigured c c') : Accounted c c' 0 where
  reserve := h.vault.vaultTokenAccount
  asset := h.vault.assetMint
  share := h.vault.shareMint
  balanced := by
    simp only [VaultState.reserveBalance, h.token, h.vault.vaultTokenAccount,
      h.vault.totalAssetBalance]
    omega

/-- A hand-over of a mint moves no tokens. -/
theorem initializeTranches_accounted {ctx : InitializeTranches}
    {args : InitializeTranchesArgs} (h : initializeTranches c ctx args = .ok c') :
    Accounted c c' 0 := by
  obtain ⟨token, hd⟩ := initializeTranches_divides h
  obtain rfl := hd.state
  refine ⟨rfl, rfl, rfl, ?_⟩
  show token.balance c.vault.vaultTokenAccount + _ =
    c.token.balance c.vault.vaultTokenAccount + _ + 0
  simp only [Ledger.balance, hd.accounts]
  rfl

theorem addVaultAsset_accounted (hw : c.WellFormed) {ctx : AddVaultAsset} {depositCap : ℕ}
    (h : addVaultAsset c ctx depositCap = .ok c') : Accounted c c' 0 := by
  obtain ⟨token₁, token, hl⟩ := addVaultAsset_listed h
  obtain rfl := hl.state
  have hu₁ := initializeAccount_untouched hl.reserve c.key
  have hu₂ := initializeAccount_untouched hl.pendingVault c.key
  have hreserve : c.token.Holds c.vault.vaultTokenAccount c.vault.assetMint c.key :=
    hw.terms.reserve.holds
  refine ⟨rfl, rfl, rfl, ?_⟩
  show token.balance c.vault.vaultTokenAccount + _ =
    c.token.balance c.vault.vaultTokenAccount + _ + 0
  rw [hu₂.balance _ _ (hu₁.holds _ _ hreserve), hu₁.balance _ _ hreserve]
  rfl

/-- The accounts of a removed asset are of another mint than the reserve. -/
theorem removeVaultAsset_accounted (hw : c.WellFormed) {authority : Pubkey}
    (h : removeVaultAsset c authority m = .ok c') : Accounted c c' 0 := by
  obtain ⟨va, token₁, token, count, hremoved⟩ := removeVaultAsset_removed h
  obtain rfl := hremoved.state
  have hasset := hw.terms.assets m va.terms (by simp [VaultState.terms, hremoved.found])
  have hsame := hremoved.accounts.2 c.vault.vaultTokenAccount
    (hw.terms.reserve.holds.ne_of_mint hasset.reserve.holds hasset.ne_primary)
    (hw.terms.reserve.holds.ne_of_mint hasset.pendingVault.holds hasset.ne_primary)
  refine ⟨rfl, rfl, rfl, ?_⟩
  show token.balance c.vault.vaultTokenAccount + _ =
    c.token.balance c.vault.vaultTokenAccount + _ + 0
  simp only [Ledger.balance, hsame]
  rfl

theorem execConfig_accounted (hw : c.WellFormed) {i : ConfigInstruction}
    (h : execConfig c i = .ok c') : Accounted c c' 0 := by
  by_cases hi : i.IsSetting
  · exact (execConfig_reconfigured hi h).accounted
  · cases i <;> try exact absurd trivial hi
    case initializeTranches => exact initializeTranches_accounted h
    case addVaultAsset => exact addVaultAsset_accounted hw h
    case removeVaultAsset => exact removeVaultAsset_accounted hw h

/-- What a third party's action puts into the reserve. -/
def VaultState.donatedBy (c : VaultState) : WorldAction → ℕ
  | .transfer _ _ _ mint dst amount | .transferDelegated _ _ _ mint dst amount =>
    if dst = c.vault.vaultTokenAccount then
      amount - ((c.token.mints mint).map (Mint.transferFee · amount)).getD 0
    else 0
  | .mintTo _ _ _ dst amount => if dst = c.vault.vaultTokenAccount then amount else 0
  | _ => 0

theorem worldToken_reserve (hw : c.WellFormed) {w : WorldAction}
    (h : worldToken c w = .ok token) :
    token.balance c.vault.vaultTokenAccount =
      c.token.balance c.vault.vaultTokenAccount + c.donatedBy w := by
  have halone : c.token.HoldsAlone c.vault.vaultTokenAccount c.vault.assetMint c.key :=
    hw.terms.reserve
  have hreserve := halone.holds
  cases w <;> simp only [worldToken, bind_eq_ok, VaultState.signer_eq_ok, cpi_eq_ok,
    pure_eq_ok] at h
  -- a transfer into the reserve is a donation, less the fee of the mint
  case transfer authority program src mint dst amount =>
    obtain ⟨-, hkey, h⟩ := h
    have htr := transfer_ok h
    have hsrc := hreserve.ne_of_owner htr.src_holds (Ne.symm hkey)
    by_cases hdst : dst = c.vault.vaultTokenAccount
    · subst hdst
      obtain ⟨y, hy, -, hbalance⟩ := htr.balance_dst hsrc.symm
      simp [VaultState.donatedBy, hbalance, hy]
    · rw [htr.balance_of_ne _ hsrc (Ne.symm hdst)]
      simp [VaultState.donatedBy, hdst]
  case burn =>
    obtain ⟨-, hkey, h⟩ := h
    exact (burn_ok h).balance_of_ne _ (hreserve.ne_of_owner (burn_ok h).src_holds (Ne.symm hkey))
  case transferDelegated delegate program src mint dst amount =>
    obtain ⟨-, -, h⟩ := h
    have htr := transferDelegated_ok h
    -- the reserve has no delegate
    have hsrc := htr.ne_src halone
    by_cases hdst : dst = c.vault.vaultTokenAccount
    · subst hdst
      obtain ⟨y, hy, hbalance⟩ := htr.balance_dst hsrc.symm
      simp [VaultState.donatedBy, hbalance, hy]
    · rw [htr.balance_kept _ hsrc (Ne.symm hdst)]
      simp [VaultState.donatedBy, hdst]
  case burnDelegated =>
    obtain ⟨-, -, h⟩ := h
    have hburned := burnDelegated_ok h
    exact hburned.balance_kept _ (hburned.ne_src halone)
  case applySetting =>
    obtain ⟨-, -, h⟩ := h
    exact (applySetting_ok h).balance _
  case mintTo authority program mint dst amount =>
    obtain ⟨-, -, h⟩ := h
    have hminted := mintTo_ok h
    by_cases hdst : dst = c.vault.vaultTokenAccount
    · subst hdst
      simp [VaultState.donatedBy, hminted.balance_dst]
    · rw [hminted.balance_of_ne _ (Ne.symm hdst)]
      simp [VaultState.donatedBy, hdst]
  case initializeMint => exact (initializeMint_untouched h _).balance _ _ hreserve
  case setMintAuthority =>
    obtain ⟨-, hkey, h⟩ := h
    exact (setMintAuthority_untouched h hkey).balance _ _ hreserve
  case setTransferFee =>
    obtain ⟨-, -, h⟩ := h
    exact (setTransferFee_untouched h _).balance _ _ hreserve
  case initializeAccount => exact (initializeAccount_untouched h _).balance _ _ hreserve
  case closeAccount =>
    obtain ⟨-, hkey, h⟩ := h
    exact (closeAccount_untouched h hkey).balance _ _ hreserve
  case advanceClock =>
    subst h
    rfl

/-- What an action puts into the reserve for nothing. -/
def VaultState.donated (c : VaultState) : Action → ℕ
  | .world w => c.donatedBy w
  | _ => 0

/-- **Every instruction of the core moves the reserve and the total alike.** -/
theorem exec_accounted (hw : c.WellFormed) (hp : c.PaysOutward)
    (hne : c.vault.shareMint ≠ c.vault.assetMint) {b : Action} (h : exec c b = .ok c') :
    Accounted c c' (c.donated b) := by
  cases b with
  | request i remaining => exact execRequest_accounted hw hp h
  | instantDeposit ctx amount remaining => exact instantDeposit_accounted hw hp hne h
  | instantRedeem ctx shares remaining => exact instantRedeem_accounted hw hp h
  | updateVaultNav authority u remaining => exact updateVaultNav_accounted hw hne h
  | config i => exact execConfig_accounted hw h
  | world w =>
    obtain ⟨token, clock, htoken, rfl⟩ := execWorld_ok h
    exact .of_terms rfl rfl (worldToken_reserve hw htoken)

/-! ### The whole program -/

/-- What a position records of the asset `m`. -/
def Position.recorded (m : Pubkey) (p : Position) : ℕ := if p.assetMint = m then p.amount else 0

theorem Position.recorded_of_eq {p : Position} (h : p.assetMint = m) : p.recorded m = p.amount :=
  if_pos h

theorem Position.recorded_of_ne {p : Position} (h : p.assetMint ≠ m) : p.recorded m = 0 :=
  if_neg h

theorem Position.recorded_of_empty {p : Position} (h : p.amount = 0) : p.recorded m = 0 := by
  simp [recorded, h]

/-- What open positions of the primary asset record. -/
def ManagedState.deployed (s : ManagedState) : ℕ :=
  total (Position.recorded s.core.vault.assetMint) s.positions

/-- What an action takes out of the reserve for an outside recipient. -/
def ManagedAction.withdrawn : ManagedAction → ℕ
  | .venue (.withdrawAssets _ amount) => amount
  | _ => 0

/-- What third parties put into the reserve by an action. -/
def ManagedState.donated (s : ManagedState) : ManagedAction → ℕ
  | .core b => s.core.donated b
  | _ => 0

/-- One transaction keeps the ledger of the reserve, which stays at its place. -/
structure Balanced (s s' : ManagedState) (withdrawn donated : ℕ) : Prop where
  reserve : s'.core.vault.vaultTokenAccount = s.core.vault.vaultTokenAccount
  asset : s'.core.vault.assetMint = s.core.vault.assetMint
  share : s'.core.vault.shareMint = s.core.vault.shareMint
  balanced : s'.core.reserveBalance + s'.deployed + withdrawn + s.core.vault.totalAssetBalance =
    s.core.reserveBalance + s.deployed + s'.core.vault.totalAssetBalance + donated

/-- Where the terms and the total stay, what left the reserve is with venues or withdrawn. -/
theorem Moved.balanced (h : Moved s.core s'.core)
    {positions : Store (VenueEntryKey × Pubkey) Position}
    (hpositions : s'.positions = positions) {withdrawn : ℕ}
    (hb : s'.core.token.balance s.core.vault.vaultTokenAccount +
        total (Position.recorded s.core.vault.assetMint) positions + withdrawn =
      s.core.token.balance s.core.vault.vaultTokenAccount + s.deployed) :
    Balanced s s' withdrawn 0 := by
  have hasset : s'.core.vault.assetMint = s.core.vault.assetMint := congrArg Terms.assetMint h.terms
  have hreserve : s'.core.vault.vaultTokenAccount = s.core.vault.vaultTokenAccount :=
    congrArg Terms.vaultTokenAccount h.terms
  refine ⟨hreserve, hasset, h.shareMint, ?_⟩
  have htotal := h.assets
  simp only [VaultState.reserveBalance, ManagedState.deployed, hreserve, hasset, hpositions] at hb ⊢
  omega

/-- A position of the asset counts with what it records. -/
theorem total_recorded_of_eq {k : VenueEntryKey × Pubkey} {p : Position}
    {positions : Store (VenueEntryKey × Pubkey) Position} (found : positions.lookup k = some p)
    (hm : p.assetMint = m) :
    total (Position.recorded m) (positions.insert k { p with amount := n }) + p.amount =
      total (Position.recorded m) positions + n := by
  have htotal := total_insert_of_some (w := Position.recorded m) (u := { p with amount := n }) found
  rwa [Position.recorded_of_eq hm, Position.recorded_of_eq (p := { p with amount := n }) hm]
    at htotal

/-- A position of another asset records nothing of the primary one. -/
theorem total_recorded_of_ne {k : VenueEntryKey × Pubkey} {p : Position}
    {positions : Store (VenueEntryKey × Pubkey) Position} (found : positions.lookup k = some p)
    (hm : p.assetMint ≠ m) :
    total (Position.recorded m) (positions.insert k { p with amount := n }) =
      total (Position.recorded m) positions := by
  have htotal := total_insert_of_some (w := Position.recorded m) (u := { p with amount := n }) found
  rwa [Position.recorded_of_ne hm, Position.recorded_of_ne (p := { p with amount := n }) hm,
    Nat.add_zero, Nat.add_zero] at htotal

theorem execVenue_balanced (hs : Custodial s) {i : VenueInstruction}
    (hp : s.PaysOutward (.venue i)) (h : execVenue s i = .ok s') :
    Balanced s s' (ManagedAction.venue i).withdrawn 0 := by
  have hv := hs.valid
  have hmoved := execVenue_moved hs h
  have hreserve : s.core.token.Holds s.core.vault.vaultTokenAccount s.core.vault.assetMint
    s.core.key := hv.reserve.holds
  -- moving another asset leaves the reserve alone
  have hsame : ∀ {program : TokenProgram} {src dst m' : Pubkey} {amount : ℕ},
      Transferred s.core.token s'.core.token program src m' dst s.core.key amount →
      m' ≠ s.core.vault.assetMint →
      s'.core.token.balance s.core.vault.vaultTokenAccount =
        s.core.token.balance s.core.vault.vaultTokenAccount := by
    intro program src dst m' amount htr hm
    obtain ⟨o, hdst⟩ := htr.dst_holds
    exact htr.balance_of_ne _ (hreserve.ne_of_mint htr.src_holds (Ne.symm hm))
      (hreserve.ne_of_mint hdst (Ne.symm hm))
  cases execVenue_effect hv.coherent h with
  | still recorded token positions =>
    refine hmoved.balanced positions ?_
    have hnone : (ManagedAction.venue i).withdrawn = 0 := by
      unfold ManagedAction.withdrawn
      split
      · next he =>
        cases he
        exact absurd rfl (recorded _ _)
      · rfl
    rw [token, hnone]
    rfl
  | opened fresh token asset empty positions =>
    refine hmoved.balanced positions ?_
    rw [(initializeAccount_untouched token s.core.key).balance _ _ hreserve,
      total_insert_of_none fresh, Position.recorded_of_empty empty]
    rfl
  | @deployed ctx amount p reserve program found asset source token balance positions =>
    refine hmoved.balanced positions ?_
    by_cases hm : p.assetMint = s.core.vault.assetMint
    · -- a primary position grows by what leaves the reserve
      rw [← asset, hm] at source
      obtain rfl : s.core.vault.vaultTokenAccount = reserve :=
        Option.some.inj ((Terms.reserveOf_primary s.core.terms).symm.trans source)
      have htotal := total_recorded_of_eq (n := p.amount + amount) found hm
      simp only [ManagedState.deployed, ManagedAction.withdrawn]
      omega
    · rw [hsame token (asset ▸ hm), total_recorded_of_ne found hm]
      rfl
  | @pulled ctx amount rest p reserve program found asset target token balance left positions =>
    refine hmoved.balanced positions ?_
    by_cases hm : p.assetMint = s.core.vault.assetMint
    · rw [← asset, hm] at target
      obtain rfl : s.core.vault.vaultTokenAccount = reserve :=
        Option.some.inj ((Terms.reserveOf_primary s.core.terms).symm.trans target)
      have htotal := total_recorded_of_eq (n := rest) found hm
      simp only [ManagedState.deployed, ManagedAction.withdrawn]
      omega
    · rw [hsame token (asset ▸ hm), total_recorded_of_ne found hm]
      rfl
  | @closed ctx p found empty token positions =>
    refine hmoved.balanced positions ?_
    have htotal := total_erase_of_some (w := Position.recorded s.core.vault.assetMint) found
    have hne : s.core.vault.vaultTokenAccount ≠ p.tokenAccount := fun he =>
      hs.unused (ctx.venueEntry, ctx.assetMint) p.tokenAccount
        (by simp [ManagedState.positionAccount, found]) (.inl he.symm)
    obtain ⟨-, -, -, htoken⟩ := closeAccount_ok token
    rw [Position.recorded_of_empty empty, Nat.add_zero] at htotal
    rw [htotal, htoken]
    simp only [Ledger.balance, update_of_ne hne]
    rfl
  | @withdrew ctx amount v recipient program venue held token positions =>
    refine hmoved.balanced positions ?_
    have hne := hreserve.ne_of_owner held (hp.withdrawals _ _ _ rfl venue).symm
    have hpaid := token.balance_src hne
    simp only [ManagedState.deployed, ManagedAction.withdrawn]
    omega

/-- **Every transaction keeps the ledger of the reserve.** -/
theorem execManaged_balanced (hs : Custodial s)
    (hne : s.core.vault.shareMint ≠ s.core.vault.assetMint) {b : ManagedAction}
    (hp : s.PaysOutward b) (hb : b.Unmanaged) (h : execManaged verify s b = .ok s') :
    Balanced s s' b.withdrawn (s.donated b) := by
  cases b with
  | core b =>
    simp only [execManaged, bind_eq_ok, pure_eq_ok] at h
    obtain ⟨c, hc, rfl⟩ := h
    obtain ⟨hreserve, hasset, hshare, hbalanced⟩ :=
      exec_accounted hs.ledgered.wellFormed hp.fees hne hc
    refine ⟨hreserve, hasset, hshare, ?_⟩
    simp only [ManagedState.deployed, hasset, ManagedAction.withdrawn, ManagedState.donated]
    omega
  | venue i => exact execVenue_balanced hs hp h
  | policy i =>
    obtain ⟨policies, pending, rfl⟩ := execPolicy_still h
    exact ⟨rfl, rfl, rfl, rfl⟩
  | manageVault => exact hb.elim

/-! ### Runs -/

/-- All that was withdrawn to outside recipients along a run. -/
def withdrawnAlong (tr : List (Transition ManagedState ManagedAction)) : ℕ :=
  (tr.map fun x => x.act.withdrawn).sum

/-- All that third parties put into the reserve along a run. -/
def donatedAlong (tr : List (Transition ManagedState ManagedAction)) : ℕ :=
  (tr.map fun x => x.pre.donated x.act).sum

/-- What the reserve of a new vault starts with. -/
theorem createVault_reserve {w : World} {ctx : CreateVault} {args : AsyncVaultArgs}
    (h : createVault w ctx args = .ok c) :
    c.reserveBalance = 0 ∧ c.vault.totalAssetBalance = 0 ∧
      c.vault.shareMint ≠ c.vault.assetMint := by
  obtain ⟨share, token₁, token₂, token, hacc, rfl⟩ := createVault_iff.1 h
  refine ⟨?_, rfl, hacc.differ⟩
  obtain ⟨-, ht₁⟩ := initializeAccount_ok hacc.reserve
  obtain ⟨⟨hfree, -⟩, ht₂⟩ := initializeAccount_ok hacc.pendingVault
  obtain ⟨y, -, -, ht₃⟩ := setMintAuthority_ok hacc.authority
  have hdiff : ctx.reserve ≠ ctx.pendingVault := by
    intro he
    rw [ht₁, ← he] at hfree
    simp [Ledger.setAccount] at hfree
  show token.balance ctx.reserve = 0
  simp [Ledger.balance, Ledger.setAccount, ht₃, ht₂, ht₁, update_of_ne hdiff]

/-- **The ledger of the reserve.**  In a run without managed calls that pays fees and withdrawals
to others, the reserve, the open positions and what was withdrawn account for every settled
unit. -/
theorem reserve_ledger (h₀ : s₀.Created) (hrun : ManagedRun verify s₀ tr s)
    (hu : ∀ x ∈ tr, x.act.Unmanaged) (hp : ∀ x ∈ tr, x.pre.PaysOutward x.act) :
    s.core.token.balance s.core.vault.vaultTokenAccount + s.deployed + withdrawnAlong tr =
      s.core.vault.totalAssetBalance + donatedAlong tr := by
  -- along the run, with the two mints apart
  have hledger : s.core.vault.shareMint ≠ s.core.vault.assetMint ∧
      s.core.reserveBalance + s.deployed + withdrawnAlong tr =
        s.core.vault.totalAssetBalance + donatedAlong tr := by
    induction hrun with
    | nil =>
      obtain ⟨w, ctx, args, hcreate⟩ := h₀.core
      obtain ⟨hreserve, htotal, hne⟩ := createVault_reserve hcreate
      refine ⟨hne, ?_⟩
      rw [hreserve, htotal]
      simp [ManagedState.deployed, h₀.positions, withdrawnAlong, donatedAlong]
    | @snoc tr s s' b hr he ih =>
      have hmem : ∀ x ∈ tr, x ∈ tr ++ [⟨s, b, s'⟩] := fun x hx => List.mem_append_left _ hx
      have hlast : (⟨s, b, s'⟩ : Transition _ _) ∈ tr ++ [⟨s, b, s'⟩] :=
        List.mem_append_right _ (List.mem_singleton_self _)
      obtain ⟨hne, hledger⟩ := ih (fun x hx => hu x (hmem x hx)) fun x hx => hp x (hmem x hx)
      have hs := ManagedRun.custodial hr h₀ fun x hx => hu x (hmem x hx)
      have hstep : Balanced s s' b.withdrawn (s.donated b) :=
        execManaged_balanced hs hne (hp _ hlast) (hu _ hlast) he
      obtain ⟨-, hasset, hshare, hbalanced⟩ := hstep
      refine ⟨by rw [hasset, hshare]; exact hne, ?_⟩
      simp only [withdrawnAlong, donatedAlong, List.map_append, List.sum_append, List.map_cons,
        List.map_nil, List.sum_cons, List.sum_nil] at hledger ⊢
      omega
  exact hledger.2

namespace Scenario

/-- Whether fees and withdrawals go to others. -/
def paysOutward (s : ManagedState) (b : ManagedAction) : Bool :=
  s.core.vault.feeRecipient ≠ s.core.key && s.core.vault.protocolFeeRecipient ≠ s.core.key &&
    s.core.protocolFeeConfig.isNone &&
    match b with
    | .venue (.withdrawAssets ctx _) =>
      (s.vaultVenues ctx.venueEntry).all fun v => v.recipientAuthority ≠ s.core.key
    | _ => true

theorem of_paysOutward {s : ManagedState} {b : ManagedAction} (h : paysOutward s b = true) :
    s.PaysOutward b := by
  simp only [paysOutward, ne_eq, decide_not, Bool.and_eq_true, Bool.not_eq_true',
    decide_eq_false_iff_not, Option.isNone_iff_eq_none] at h
  obtain ⟨⟨⟨hfee, hprotocol⟩, hconfig⟩, hwithdrawal⟩ := h
  refine ⟨⟨hfee, hprotocol, fun _ hn => ?_⟩, ?_⟩
  · rw [hconfig] at hn
    cases hn
  · rintro ctx amount v rfl hv
    simpa [hv] using hwithdrawal

end Scenario

open Scenario in
/-- **Non-vacuity.** 100 assets were settled and 7 sent to the reserve; a venue holds 30 of them
and 20 were withdrawn, so the reserve holds 57. -/
theorem reserve_ledger_of_withdrawal :
    ∃ s₀ tr s, s₀.Created ∧ ManagedRun noCalls s₀ tr s ∧
      (∀ x ∈ tr, x.act.Unmanaged) ∧ (∀ x ∈ tr, x.pre.PaysOutward x.act) ∧
      s.deployed = 30 ∧ withdrawnAlong tr = 20 ∧ donatedAlong tr = 7 ∧
      s.core.vault.totalAssetBalance = 100 ∧
      s.core.token.balance s.core.vault.vaultTokenAccount + s.deployed + withdrawnAlong tr =
        s.core.vault.totalAssetBalance + donatedAlong tr := by
  obtain ⟨s₀, tr, s, h₀, hrun, hacts, hp⟩ := exists_managed_run
    ([allowWithdrawals, anyNav, start, post 10, deposit 100 senior 100,
      approve 100 senior .deposit 100 1, donate 7].map .core ++ openVenue ++
      [deploy 30, withdraw 20])
    (fun tr s => decide (s.deployed = 30 ∧ withdrawnAlong tr = 20 ∧ donatedAlong tr = 7 ∧
        s.core.vault.totalAssetBalance = 100) &&
      tr.all fun x => paysOutward x.pre x.act && decide x.act.Unmanaged)
    (by decide +kernel)
  simp only [Bool.and_eq_true, decide_eq_true_eq, List.all_eq_true] at hp
  obtain ⟨⟨hdeployed, hwithdrawn, hdonated, htotal⟩, hall⟩ := hp
  have hu : ∀ x ∈ tr, x.act.Unmanaged := fun x hx => (hall x hx).2
  have hout : ∀ x ∈ tr, x.pre.PaysOutward x.act := fun x hx => of_paysOutward (hall x hx).1
  exact ⟨s₀, tr, s, h₀, hrun, hu, hout, hdeployed, hwithdrawn, hdonated, htotal,
    reserve_ledger h₀ hrun hu hout⟩

end AsyncVault
