/-
AsyncVault/InstantAgreement.lean

Instant settlement agrees with requests.

A deposit or a redemption is settled in one instruction, or in three: a request
is created, approved and claimed.  The terms of either depend on the same few
things, which `VaultState.tariff` collects, and what is booked on the token
accounts is compared posting by posting (`TokenLedger.Postings`), whatever
accounts of the user and of the fee recipients are passed and whether or not
some of them are the same.

Between the three instructions anything may happen that leaves the tariff and
the request alone (`Fulfilment`); a vault that wants a fresh NAV for an approval
is posted the same NAV again.
-/
import AsyncVault.RollingLimits
import AsyncVault.Lib.Postings
import Mathlib

namespace AsyncVault

open Checked TokenLedger KeyedStore Function

variable {s s' : VaultState} {m k src authority : Pubkey} {r : Request}
variable {token token' : Ledger Pubkey} {program : TokenProgram} {n : ℕ}
variable {remaining : List AccountInfo} {context : RequestShareMintContext}

/-! ### Tariffs -/

/-- What the terms of a settlement depend on. -/
structure Tariff where
  vault : Pubkey
  assetMint : Pubkey
  shareMint : Pubkey
  trancheConfig : Option Pubkey
  nav : ℕ
  /-- The shares that cost one NAV. -/
  unit : ℕ
  depositFee : Option FeeType
  withdrawalFee : Option FeeType
  protocolFeeBps : ℕ
  feeRecipient : Pubkey
  reserve : Pubkey
  pendingVault : Pubkey
  /-- The transfer fee of the asset. -/
  transferFeeBps : Option ℕ
  /-- Mint and owner of the reserve. -/
  custody : Option (Pubkey × Pubkey)
  deriving DecidableEq

def VaultState.tariff (s : VaultState) : Tariff where
  vault := s.key
  assetMint := s.vault.assetMint
  shareMint := s.vault.shareMint
  trancheConfig := s.vault.trancheConfig
  nav := s.vault.nav
  unit := s.token.unit s.vault.shareMint
  depositFee := s.extensions.depositFee
  withdrawalFee := s.extensions.withdrawalFee
  protocolFeeBps := s.vault.protocolFeeBps
  feeRecipient := s.vault.feeRecipient
  reserve := s.vault.vaultTokenAccount
  pendingVault := s.vault.pendingVault
  transferFeeBps := (s.token.mints s.vault.assetMint).map Mint.epochFeeBps
  custody := s.token.custody s.vault.vaultTokenAccount

/-- Requests and settlements leave the tariff alone. -/
theorem Operated.tariff (h : Operated s s') (hshape : SameShape s.token s'.token) :
    s'.tariff = s.tariff := by
  have hv : ∀ {α : Type} (f : Vault → α), (∀ v, f v.settings = f v) → f s'.vault = f s.vault := by
    intro α f hf
    rw [← hf, h.settings, hf]
  have hext : ∀ {α : Type} (f : VaultExtensions → α), (∀ ext, f ext.unqueued = f ext) →
      f s'.extensions = f s.extensions := by
    intro α f hf
    rw [← hf, h.extensions, hf]
  have hasset := hv Vault.assetMint fun _ => rfl
  have hshare := hv Vault.shareMint fun _ => rfl
  have hreserve := hv Vault.vaultTokenAccount fun _ => rfl
  unfold VaultState.tariff
  rw [hasset, hshare, hreserve, hshape.epochFeeBps, hshape.unit, hshape.custody, h.key,
    hv Vault.trancheConfig fun _ => rfl, hv Vault.nav fun _ => rfl,
    hv Vault.protocolFeeBps fun _ => rfl, hv Vault.feeRecipient fun _ => rfl,
    hv Vault.pendingVault fun _ => rfl, hext VaultExtensions.depositFee fun _ => rfl,
    hext VaultExtensions.withdrawalFee fun _ => rfl]

/-- On a plain vault the requested shares are those of the vault, and cost its NAV. -/
theorem validateRequestShareMint_plain (hplain : s.vault.trancheConfig = none)
    (h : validateRequestShareMint s m remaining = .ok context) :
    m = s.vault.shareMint ∧ context = ⟨0, none, none⟩ := by
  unfold validateRequestShareMint at h
  simp only [hplain, bind_eq_ok, ensure_eq_ok, pure_eq_ok] at h
  obtain ⟨-, hm, rfl⟩ := h
  exact ⟨hm, rfl⟩

/-! ### Fees -/

/-- Who may be paid the protocol's part of a fee: the recipient of the program-wide configuration
or the vault's own. -/
def VaultState.IsProtocolRecipient (s : VaultState) (k : Pubkey) : Prop :=
  k = s.vault.protocolFeeRecipient ∨
    ∃ config, s.protocolFeeConfig = some config ∧ k = config.protocolFeeRecipient

theorem resolveProtocolFeeRecipient_ok {info : Option AccountInfo} {x : Pubkey × Bool}
    (h : s.resolveProtocolFeeRecipient info = .ok x) : s.IsProtocolRecipient x.1 := by
  unfold VaultState.resolveProtocolFeeRecipient at h
  split at h
  · next config hconfig =>
    split at h
    · simp only [bind_eq_ok, pure_eq_ok] at h
      obtain ⟨-, -, rfl⟩ := h
      exact .inr ⟨config, hconfig, rfl⟩
    · obtain rfl := pure_eq_ok.1 h
      exact .inl rfl
  · obtain rfl := pure_eq_ok.1 h
    exact .inl rfl

/-- The two parts of a fee. -/
structure FeeParts where
  recipient : ℕ
  protocol : ℕ

def FeeParts.total (f : FeeParts) : ℕ := f.recipient + f.protocol

/-- The accounts a settlement is booked on: the user's, and where the parts of the fee go. -/
structure SettlementAccounts where
  userAsset : Pubkey
  userShare : Pubkey
  feeAccount : Pubkey
  protocolAccount : Pubkey

/-- Each part of a fee goes to an account of its recipient. -/
structure FeeParts.PaidTo (f : FeeParts) (s : VaultState) (feeAccount protocolAccount : Pubkey) :
    Prop where
  recipient : 0 < f.recipient → s.token.Holds feeAccount s.vault.assetMint s.vault.feeRecipient
  protocol : 0 < f.protocol → ∃ k, s.IsProtocolRecipient k ∧
    s.token.Holds protocolAccount s.vault.assetMint k

def FeeParts.postings (f : FeeParts) (src feeAccount protocolAccount : Pubkey) : Postings Pubkey :=
  [(src, -f.recipient), (feeAccount, f.recipient), (src, -f.protocol),
    (protocolAccount, f.protocol)]

/-- A fee paid out of `src`. -/
structure FeePaid (s : VaultState) (token token' : Ledger Pubkey) (src : Pubkey) (fee : ℕ)
    (f : FeeParts) (feeAccount protocolAccount : Pubkey) : Prop where
  split : splitProtocolFee fee s.vault.protocolFeeBps = .ok (f.protocol, f.recipient)
  shape : SameShape token token'
  mints : token'.mints = token.mints
  posts : token.Posts token' (f.postings src feeAccount protocolAccount)
  paidTo : f.PaidTo s feeAccount protocolAccount

/-- A part of a fee is posted, or there is none. -/
theorem posts_part {feeAccount : Pubkey}
    (hfree : ∀ y, token.mints m = some y → y.epochFeeBps = 0)
    (h : Transferred token token' program src m feeAccount authority n ∨ n = 0 ∧ token' = token) :
    SameShape token token' ∧ token'.mints = token.mints ∧
      token.Posts token' [(src, -n), (feeAccount, n)] := by
  rcases h with h | ⟨rfl, rfl⟩
  · exact ⟨h.shape, h.mints, h.posts hfree⟩
  · refine ⟨.refl _, rfl, (Ledger.Posts.refl _).congr fun a => ?_⟩
    show (0 : ℤ) = (if src = a then -0 else 0) + ((if feeAccount = a then 0 else 0) + 0)
    simp

/-- A transfer-fee rate of a mint survives bookings. -/
theorem free_of_shape (hshape : SameShape token token')
    (hfree : ∀ y, token.mints m = some y → y.epochFeeBps = 0) :
    ∀ y, token'.mints m = some y → y.epochFeeBps = 0 := by
  intro y hy
  have hrate := hshape.epochFeeBps m
  rw [hy] at hrate
  obtain ⟨y₀, hy₀, hy₁⟩ := Option.map_eq_some_iff.1 hrate.symm
  exact hy₁ ▸ hfree y₀ hy₀

/-- The two parts of a fee, posted one after the other. -/
theorem feePaid_of_parts {fee : ℕ} {f : FeeParts} {feeAccount protocolAccount : Pubkey}
    {token₁ : Ledger Pubkey} {program' : TokenProgram} {authority' : Pubkey}
    (hfree : ∀ y, token.mints m = some y → y.epochFeeBps = 0)
    (hsplit : splitProtocolFee fee s.vault.protocolFeeBps = .ok (f.protocol, f.recipient))
    (h : Transferred token token₁ program src m feeAccount authority f.recipient ∨
      f.recipient = 0 ∧ token₁ = token)
    (h' : Transferred token₁ token' program' src m protocolAccount authority' f.protocol ∨
      f.protocol = 0 ∧ token' = token₁)
    (hpaid : f.PaidTo s feeAccount protocolAccount) :
    FeePaid s token token' src fee f feeAccount protocolAccount := by
  obtain ⟨hshape, hmints, hposts⟩ := posts_part hfree h
  obtain ⟨hshape', hmints', hposts'⟩ := posts_part (free_of_shape hshape hfree) h'
  exact ⟨hsplit, hshape.trans hshape', hmints'.trans hmints, hposts.trans hposts', hpaid⟩

theorem payInstantFee_feePaid {fee : ℕ} {account protocolAccount : Option Pubkey}
    (hfree : ∀ y, token.mints s.vault.assetMint = some y → y.epochFeeBps = 0)
    (h : payInstantFee s token program src s.vault.assetMint authority fee account protocolAccount
      remaining = .ok token') :
    ∃ f fa pa, FeePaid s token token' src fee f fa pa := by
  simp only [payInstantFee, bind_eq_ok] at h
  obtain ⟨⟨pf, rf⟩, hsplit, token₁, h₁, h₂⟩ := h
  simp only at h₁ h₂
  -- a part of nothing is paid to nobody, and `src` stands for its account
  have hrecipient : ∃ fa, (Transferred token token₁ program src s.vault.assetMint fa authority rf ∨
      rf = 0 ∧ token₁ = token) ∧
      (0 < rf → s.token.Holds fa s.vault.assetMint s.vault.feeRecipient) := by
    split at h₁
    · simp only [bind_eq_ok, okOr_eq_ok, cpi_eq_ok] at h₁
      obtain ⟨fa, -, x, hx, h₁⟩ := h₁
      exact ⟨fa, .inl (transferChecked_ok h₁), fun _ => VaultState.holds_of_tokenAccount hx⟩
    · next hzero =>
      exact ⟨src, .inr ⟨Nat.eq_zero_of_not_pos hzero, (pure_eq_ok.1 h₁).symm⟩,
        fun hpos => absurd hpos hzero⟩
  -- the protocol's part likewise, to the recipient that is resolved first
  have hprotocol : ∃ pa, (Transferred token₁ token' program src s.vault.assetMint pa authority pf ∨
      pf = 0 ∧ token' = token₁) ∧ (0 < pf → ∃ k, s.IsProtocolRecipient k ∧
        s.token.Holds pa s.vault.assetMint k) := by
    split at h₂
    · simp only [bind_eq_ok, okOr_eq_ok, cpi_eq_ok] at h₂
      obtain ⟨⟨k, consumed⟩, hk, pa, -, x, hx, h₂⟩ := h₂
      exact ⟨pa, .inl (transferChecked_ok h₂),
        fun _ => ⟨k, resolveProtocolFeeRecipient_ok hk, VaultState.holds_of_tokenAccount hx⟩⟩
    · next hzero =>
      exact ⟨src, .inr ⟨Nat.eq_zero_of_not_pos hzero, (pure_eq_ok.1 h₂).symm⟩,
        fun hpos => absurd hpos hzero⟩
  obtain ⟨fa, hfa, hfa'⟩ := hrecipient
  obtain ⟨pa, hpa, hpa'⟩ := hprotocol
  exact ⟨⟨rf, pf⟩, fa, pa, feePaid_of_parts hfree hsplit hfa hpa ⟨hfa', hpa'⟩⟩

/-- A remaining account that is checked for its owner and then paid belongs to that owner. -/
theorem holds_of_paid {info : AccountInfo} {o : Pubkey} {u : Unit}
    (hshape : SameShape s.token token)
    (hcheck : s.validateTokenAccountOwner info o = .ok u)
    (h : VaultState.transferToInfo token program src m info authority n = .ok token') :
    s.token.Holds info.key m o ∧ Transferred token token' program src m info.key authority n := by
  simp only [VaultState.transferToInfo, bind_eq_ok, require_eq_ok, cpi_eq_ok,
    Option.isNone_iff_eq_none] at h
  obtain ⟨-, hraw, h⟩ := h
  have htransfer := transferChecked_ok h
  obtain ⟨o', hholds⟩ := htransfer.dst_holds
  obtain ⟨x, hx, hm, rfl⟩ := hshape.holds_iff.1 hholds
  have howner : x.owner = o := by
    simpa [VaultState.validateTokenAccountOwner, hraw, hx] using hcheck
  exact ⟨⟨x, hx, hm, howner⟩, htransfer⟩

theorem paySettlementFee_feePaid {fee : ℕ}
    (hfree : ∀ y, s.token.mints s.vault.assetMint = some y → y.epochFeeBps = 0)
    (h : paySettlementFee s program src s.vault.assetMint fee remaining = .ok token') :
    ∃ f fa pa, FeePaid s s.token token' src fee f fa pa := by
  simp only [paySettlementFee, bind_eq_ok] at h
  obtain ⟨⟨pf, rf⟩, hsplit, ⟨account, rest⟩, haccount, protocolAccount, hprotocolAccount, token₁,
    h₁, h₂⟩ := h
  simp only at haccount hprotocolAccount h₁ h₂
  -- the accounts are resolved before the payments, each for a part above zero
  have hrecipient : ∃ fa, (Transferred s.token token₁ program src s.vault.assetMint fa s.key rf ∨
      rf = 0 ∧ token₁ = s.token) ∧
      (0 < rf → s.token.Holds fa s.vault.assetMint s.vault.feeRecipient) := by
    unfold feeRecipientAccount at haccount
    split at haccount
    · simp only [bind_eq_ok, pure_eq_ok, Prod.mk.injEq] at haccount
      obtain ⟨info, -, _, hcheck, rfl, -⟩ := haccount
      obtain ⟨hholds, htransfer⟩ := holds_of_paid (.refl _) hcheck h₁
      exact ⟨info.key, .inl htransfer, fun _ => hholds⟩
    · next hzero =>
      obtain ⟨rfl, -⟩ := Prod.mk.inj (pure_eq_ok.1 haccount)
      exact ⟨src, .inr ⟨Nat.eq_zero_of_not_pos hzero, (pure_eq_ok.1 h₁).symm⟩,
        fun hpos => absurd hpos hzero⟩
  obtain ⟨fa, hfa, hfa'⟩ := hrecipient
  -- the first payment leaves the account of the second in place
  have hshape := (posts_part hfree hfa).1
  have hprotocol : ∃ pa, (Transferred token₁ token' program src s.vault.assetMint pa s.key pf ∨
      pf = 0 ∧ token' = token₁) ∧ (0 < pf → ∃ k, s.IsProtocolRecipient k ∧
        s.token.Holds pa s.vault.assetMint k) := by
    unfold protocolFeeAccount at hprotocolAccount
    split at hprotocolAccount
    · simp only [bind_eq_ok, pure_eq_ok] at hprotocolAccount
      obtain ⟨⟨k, consumed⟩, hk, info, -, _, hcheck, rfl⟩ := hprotocolAccount
      obtain ⟨hholds, htransfer⟩ := holds_of_paid hshape hcheck h₂
      exact ⟨info.key, .inl htransfer, fun _ => ⟨k, resolveProtocolFeeRecipient_ok hk, hholds⟩⟩
    · next hzero =>
      obtain rfl := pure_eq_ok.1 hprotocolAccount
      exact ⟨src, .inr ⟨Nat.eq_zero_of_not_pos hzero, (pure_eq_ok.1 h₂).symm⟩,
        fun hpos => absurd hpos hzero⟩
  obtain ⟨pa, hpa, hpa'⟩ := hprotocol
  exact ⟨⟨rf, pf⟩, fa, pa, feePaid_of_parts hfree hsplit hfa hpa ⟨hfa', hpa'⟩⟩

/-! ### Approvals on any vault -/

/-- Tokens paid out of `src`: the parts of a fee, and the net amount to `dst`. -/
structure PaidOut (s : VaultState) (token token' : Ledger Pubkey) (src dst : Pubkey) (fee net : ℕ)
    (f : FeeParts) (feeAccount protocolAccount : Pubkey) : Prop where
  split : splitProtocolFee fee s.vault.protocolFeeBps = .ok (f.protocol, f.recipient)
  shape : SameShape token token'
  mints : token'.mints = token.mints
  posts : token.Posts token'
    (payments src [(feeAccount, f.recipient), (protocolAccount, f.protocol), (dst, net)])
  paidTo : f.PaidTo s feeAccount protocolAccount

/-- After the fee, the net amount. -/
theorem FeePaid.paidOut {token₁ : Ledger Pubkey} {fee net : ℕ} {f : FeeParts} {fa pa dst : Pubkey}
    (h : FeePaid s token token₁ src fee f fa pa)
    (hfree : ∀ y, token.mints m = some y → y.epochFeeBps = 0)
    (hnet : Transferred token₁ token' program src m dst authority net) :
    PaidOut s token token' src dst fee net f fa pa :=
  ⟨h.split, h.shape.trans hnet.shape, hnet.mints.trans h.mints,
    h.posts.trans (hnet.posts (free_of_shape h.shape hfree)), h.paidTo⟩

theorem PaidOut.total {fee net : ℕ} {f : FeeParts} {fa pa dst : Pubkey}
    (h : PaidOut s token token' src dst fee net f fa pa) : f.total = fee := by
  have hsplit := splitProtocolFee_add h.split
  simp only at hsplit
  unfold FeeParts.total
  omega

/-- Predicting a supply touches only the tranches. -/
theorem updateTrancheSupplyCache_frame {t : RequestType} {delta live : ℕ}
    {info : Option TrancheRequestInfo} {account : Option AccountInfo}
    (h : updateTrancheSupplyCache s m t delta live info account = .ok s') :
    ∃ tc, s' = { s with trancheConfig := tc } := by
  unfold updateTrancheSupplyCache at h
  split at h
  · obtain rfl := pure_eq_ok.1 h
    exact ⟨s.trancheConfig, rfl⟩
  · simp only [bind_eq_ok] at h
    obtain ⟨tc, htc, h⟩ := h
    split at h
    · simp only [bind_eq_ok, pure_eq_ok] at h
      obtain ⟨n, -, rfl⟩ := h
      exact ⟨_, rfl⟩
    · split at h
      · simp only [bind_eq_ok, pure_eq_ok] at h
        obtain ⟨n, -, rfl⟩ := h
        exact ⟨_, rfl⟩
      · obtain rfl := pure_eq_ok.1 h
        exact ⟨_, rfl⟩

/-- What the checks of an approval and the step of the queue leave for the settlement. -/
structure Approving (s : VaultState) (ctx : ApproveRequest) (r : Request)
    (remaining : List AccountInfo) (share : Mint Pubkey) (context : RequestShareMintContext) :
    Prop where
  asset : r.assetMintAddress = s.vault.assetMint
  shareMint : r.shareMintAddress = ctx.shareMint
  primary : s.vault.assetMint = ctx.assetMint
  reserve : s.vault.vaultTokenAccount = ctx.vaultTokenAccount
  pendingVault : s.vault.pendingVault = ctx.pendingVault
  free : ∀ y, s.token.mints s.vault.assetMint = some y → y.epochFeeBps = 0
  mint : s.token.mints r.shareMintAddress = some share
  context : validateRequestShareMint s r.shareMintAddress remaining = .ok context

theorem approveRequest_approving {ctx : ApproveRequest} {args : ApproveRequestArgs}
    (hr : s.requests.lookup ctx.request = some r)
    (h : approveRequest s ctx args remaining = .ok s') :
    ∃ share context ext tc, Approving s ctx r remaining share context ∧
      ∃ x, (match r.requestType with
        | .deposit => settleDeposit { s with extensions := ext, trancheConfig := tc } ctx context r
            (settlementNav context.trancheNav s.vault.nav) share remaining
        | .redeem => settleRedeem { s with extensions := ext, trancheConfig := tc } ctx context r
            (settlementNav context.trancheNav s.vault.nav) share remaining) = .ok x ∧
      ∃ v, (match r.requestType with
        | .deposit => creditDeposit x.state.vault x.balanceDelta r.amount
        | .redeem => debitRedeem x.state.vault x.balanceDelta) = .ok v ∧
      ∃ pending, s' = { x.state with
        vault := { v with pendingAsyncRequests := pending }
        requests := x.state.requests.insert ctx.request { r with
          amount := x.claimableAmount
          price := settlementNav context.trancheNav s.vault.nav
          requestState := .claimable } } := by
  obtain ⟨r', share, context, s₁, x, v, hacc, hsettles⟩ := approveRequest_iff.1 h
  obtain rfl := Option.some.inj (hacc.found.symm.trans hr)
  -- only the primary asset is settled, between the accounts of the vault
  obtain ⟨hprimary, hreserve, hpending⟩ := checkSettlementAccounts_ok hacc.accounts
  obtain ⟨asset, hasset, -, hfree⟩ := hacc.assetMint
  have hshare := hacc.shareMint
  have hcontext := hacc.context
  rw [← hacc.share] at hshare hcontext
  obtain ⟨ext, tc, rfl, -⟩ := advanceQueue_ok hsettles.queue
  -- the counter of open requests is the last thing written
  have hstate := hsettles.state
  simp only [decrementPendingRequests, bind_eq_ok, pure_eq_ok] at hstate
  obtain ⟨pending, -, rfl⟩ := hstate
  refine ⟨share, context, ext, tc, ⟨hacc.asset.trans hprimary.symm, hacc.share, hprimary, hreserve,
    hpending, fun y hy => ?_, hshare, hcontext⟩, x, hsettles.settlement, v, hsettles.booking,
    pending, rfl⟩
  rw [hprimary] at hy
  exact Option.some.inj (hasset.symm.trans hy) ▸ hfree

/-- **What an approval books and records**: a fee and a net amount leave `src`, the latter for
`dst`, and `claimable` awaits the owner at the price of the requested shares. -/
structure ApprovalBooked (s s' : VaultState) (k : Pubkey) (r : Request)
    (remaining : List AccountInfo)
    (src dst : Pubkey) (fee net claimable price : ℕ) (f : FeeParts) (fa pa : Pubkey) : Prop where
  primary : r.assetMintAddress = s.vault.assetMint
  free : ∀ y, s.token.mints s.vault.assetMint = some y → y.epochFeeBps = 0
  priced : ∃ context, validateRequestShareMint s r.shareMintAddress remaining = .ok context ∧
    price = settlementNav context.trancheNav s.vault.nav
  paid : PaidOut s s.token s'.token src dst fee net f fa pa
  request : s'.requests.lookup k =
    some { r with amount := claimable, price := price, requestState := .claimable }

/-- **The approval of a deposit** takes the fee and the net amount out of the pending vault. -/
theorem approveDeposit_books {ctx : ApproveRequest} {args : ApproveRequestArgs}
    (hr : s.requests.lookup ctx.request = some r) (ht : r.requestType = .deposit)
    (h : approveRequest s ctx args remaining = .ok s') :
    ∃ fee net shares price f fa pa, ApprovalBooked s s' ctx.request r remaining s.vault.pendingVault
        s.vault.vaultTokenAccount fee net shares price f fa pa ∧
      extensionFee s.extensions.depositFee r.amount = .ok fee ∧ fee + net = r.amount ∧
      shares = FixedPoint.sharesFor (s.token.unit r.shareMintAddress) price net ∧
      s'.vault.totalAssetBalance = s.vault.totalAssetBalance + net := by
  obtain ⟨_, hworked, -⟩ := approveRequest_worked h
  obtain ⟨share, context, ext, tc, ha, x, hsettle, v, hv, pending, rfl⟩ :=
    approveRequest_approving hr h
  simp only [ht] at hsettle hv
  obtain ⟨fee, net, shares, rest, s₁, token₁, token, hs, rfl⟩ := settleDeposit_iff.1 hsettle
  obtain ⟨tc', rfl⟩ := updateTrancheSupplyCache_frame hs.cached
  obtain ⟨-, rfl⟩ := creditDeposit_vault hv
  have hfee := hs.parts
  have hpay := hs.feePaid
  have htransfer := hs.paid
  have hshares := hs.priced
  -- the payments, in the names the vault has for the accounts
  rw [← ha.primary, ← ha.pendingVault] at hpay htransfer
  rw [← ha.reserve] at htransfer
  obtain ⟨f, fa, pa, hpaid⟩ := paySettlementFee_feePaid ha.free hpay
  -- advancing the queue leaves the fee
  have hext : ext.depositFee = s.extensions.depositFee := by
    show ext.unqueued.depositFee = s.extensions.unqueued.depositFee
    exact congrArg VaultExtensions.depositFee hworked.extensions
  simp only [getDepositFeeAndNet, getDepositFee, bind_eq_ok, sub_eq_ok, pure_eq_ok,
    Prod.mk.injEq, hext] at hfee
  obtain ⟨fee', hfee', net', ⟨hle, rfl⟩, rfl, rfl⟩ := hfee
  refine ⟨fee', r.amount - fee', shares, _, f, fa, pa,
    ⟨ha.asset, ha.free, ⟨context, ha.context, rfl⟩, ?_, AList.lookup_insert _⟩, hfee',
    Nat.add_sub_cancel' hle, ?_, rfl⟩
  · exact FeePaid.paidOut hpaid ha.free (transferChecked_ok htransfer)
  · rw [unit_of_some ha.mint]
    exact (calculateShares_ok hshares).2.1

/-- **The approval of a redemption** takes the fee and the net amount out of the reserve. -/
theorem approveRedeem_books {ctx : ApproveRequest} {args : ApproveRequestArgs}
    (hr : s.requests.lookup ctx.request = some r) (ht : r.requestType = .redeem)
    (h : approveRequest s ctx args remaining = .ok s') :
    ∃ gross fee net price f fa pa, ApprovalBooked s s' ctx.request r remaining
        s.vault.vaultTokenAccount s.vault.pendingVault fee net net price f fa pa ∧
      extensionFee s.extensions.withdrawalFee gross = .ok fee ∧ fee + net = gross ∧
      gross = FixedPoint.worth (s.token.unit r.shareMintAddress) r.amount price ∧
      s'.vault.totalAssetBalance + gross = s.vault.totalAssetBalance ∧
      Metered s s' .redemption (some gross) := by
  obtain ⟨_, hworked, -⟩ := approveRequest_worked h
  obtain ⟨share, context, ext, tc, ha, x, hsettle, v, hv, pending, rfl⟩ :=
    approveRequest_approving hr h
  simp only [ht] at hsettle hv
  obtain ⟨gross, fee, net, rest, s₁, w, token₁, token, hs, rfl⟩ := settleRedeem_iff.1 hsettle
  obtain ⟨tc', rfl⟩ := updateTrancheSupplyCache_frame hs.cached
  have hcharged := hs.charged
  simp only [Vault.consumeRedemptionRollingLimit, bind_eq_ok, pure_eq_ok] at hcharged
  obtain ⟨⟨start, used⟩, hconsume, rfl⟩ := hcharged
  -- the whole gross amount is taken from the recorded assets
  simp only [debitRedeem, bind_eq_ok, sub_eq_ok, pure_eq_ok] at hv
  obtain ⟨_, ⟨htotal, rfl⟩, rfl⟩ := hv
  have hfee := hs.parts
  have hpay := hs.feePaid
  have htransfer := hs.paid
  have hgross := hs.valued
  -- the payments, in the names the vault has for the accounts
  rw [← ha.primary, ← ha.reserve] at hpay htransfer
  rw [← ha.pendingVault] at htransfer
  obtain ⟨f, fa, pa, hpaid⟩ := paySettlementFee_feePaid ha.free hpay
  -- advancing the queue leaves the fee
  have hext : ext.withdrawalFee = s.extensions.withdrawalFee := by
    show ext.unqueued.withdrawalFee = s.extensions.unqueued.withdrawalFee
    exact congrArg VaultExtensions.withdrawalFee hworked.extensions
  simp only [getWithdrawalFeeAndNet, getWithdrawalFee, bind_eq_ok, sub_eq_ok, pure_eq_ok,
    Prod.mk.injEq, hext] at hfee
  obtain ⟨fee', hfee', net', ⟨hle, rfl⟩, rfl, rfl⟩ := hfee
  refine ⟨gross, fee', gross - fee', _, f, fa, pa,
    ⟨ha.asset, ha.free, ⟨context, ha.context, rfl⟩, ?_, AList.lookup_insert _⟩, hfee',
    Nat.add_sub_cancel' hle, ?_, Nat.sub_add_cancel htotal, hconsume⟩
  · exact FeePaid.paidOut hpaid ha.free (transferChecked_ok htransfer)
  · rw [unit_of_some ha.mint]
    exact (calculateAssets_eq_ok.1 hgross).2.2.2.2

/-- On a plain vault the approved shares are those of the vault, at its NAV. -/
theorem ApprovalBooked.plain {k dst fa pa : Pubkey} {fee net claimable price : ℕ} {f : FeeParts}
    (h : ApprovalBooked s s' k r remaining src dst fee net claimable price f fa pa)
    (hplain : s.vault.trancheConfig = none) :
    r.shareMintAddress = s.vault.shareMint ∧ price = s.vault.nav := by
  obtain ⟨context, hcontext, rfl⟩ := h.priced
  obtain ⟨hm, rfl⟩ := validateRequestShareMint_plain hplain hcontext
  refine ⟨hm, ?_⟩
  simp only [settlementNav, Option.filter_none, Option.getD_none]

/-! ### Deposits -/

/-- What a deposit comes to. -/
structure DepositTerms where
  shares : ℕ
  net : ℕ
  fee : FeeParts

/-- The terms of a deposit of `amount`: the fee is taken off and split, and the rest buys shares
at the NAV. -/
structure Tariff.Sells (T : Tariff) (amount : ℕ) (d : DepositTerms) : Prop where
  fee : ∃ fee, extensionFee T.depositFee amount = .ok fee ∧ fee + d.net = amount ∧
    splitProtocolFee fee T.protocolFeeBps = .ok (d.fee.protocol, d.fee.recipient)
  shares : d.shares = FixedPoint.sharesFor T.unit T.nav d.net

/-- A tariff leaves no choice. -/
theorem Tariff.Sells.unique {T : Tariff} {amount : ℕ} {d d' : DepositTerms}
    (h : T.Sells amount d) (h' : T.Sells amount d') : d = d' := by
  obtain ⟨⟨fee, hfee, hsum, hsplit⟩, hshares⟩ := h
  obtain ⟨⟨fee', hfee', hsum', hsplit'⟩, hshares'⟩ := h'
  obtain rfl := Except.ok.inj (hfee.symm.trans hfee')
  obtain ⟨hprotocol, hrecipient⟩ := Prod.mk.inj (Except.ok.inj (hsplit.symm.trans hsplit'))
  have hnet : d.net = d'.net := by omega
  rw [← hnet] at hshares'
  obtain ⟨shares, net, recipient, protocol⟩ := d
  obtain ⟨shares', net', recipient', protocol'⟩ := d'
  simp only at hnet hprotocol hrecipient hshares hshares'
  subst hnet hprotocol hrecipient hshares hshares'
  rfl

theorem Tariff.Sells.total {T : Tariff} {amount : ℕ} {d : DepositTerms} (h : T.Sells amount d) :
    d.fee.total + d.net = amount := by
  obtain ⟨fee, -, hsum, hsplit⟩ := h.fee
  have hparts := splitProtocolFee_add hsplit
  unfold FeeParts.total
  simp only at hparts
  omega

/-- What a deposit books: the user pays the fees and the net amount, and gets shares. -/
def DepositTerms.postings (d : DepositTerms) (a : SettlementAccounts) (reserve : Pubkey) :
    Postings Pubkey :=
  [(a.userAsset, -(d.fee.total + d.net)), (a.feeAccount, d.fee.recipient),
    (a.protocolAccount, d.fee.protocol), (reserve, d.net), (a.userShare, d.shares)]

/-- What the checks of an instant settlement say about the accounts. -/
structure InstantParties (s : VaultState) (user userAsset userShare : Pubkey) : Prop where
  plain : s.vault.trancheConfig = none
  foreign : user ≠ s.key
  reserve : s.token.Holds s.vault.vaultTokenAccount s.vault.assetMint s.key
  userAsset : s.token.Holds userAsset s.vault.assetMint user
  userShare : s.token.Holds userShare s.vault.shareMint user

theorem InstantAccepted.parties {user assetMint shareMint vaultTokenAccount userAssetAccount
    userShareAccount : Pubkey} {assetTokenProgram shareTokenProgram : TokenProgram}
    {asset share : Mint Pubkey} {inst : InstantSettlement}
    (h : InstantAccepted s user assetMint shareMint vaultTokenAccount userAssetAccount
      userShareAccount assetTokenProgram shareTokenProgram asset share inst) :
    InstantParties s user userAssetAccount userShareAccount ∧
      s.token.mints s.vault.assetMint = some asset := by
  have hasset := h.assetExists
  have hreserve := h.reserveHeld
  have huser := h.userAsset
  have hshare := h.userShare
  rw [← h.primary] at hasset hreserve huser
  rw [← h.reserve] at hreserve
  rw [← h.ownShare] at hshare
  exact ⟨⟨h.plain, h.signer, hreserve, huser, hshare⟩, hasset⟩

/-- **An instant deposit** books the terms of the tariff. -/
theorem instantDeposit_sells {ctx : InstantDeposit} {amount : ℕ}
    (h : instantDeposit s ctx amount remaining = .ok s') :
    ∃ d fa pa, InstantParties s ctx.user ctx.userAssetAccount ctx.userShareAccount ∧
      s.tariff.Sells amount d ∧ d.fee.PaidTo s fa pa ∧
      s.token.Posts s'.token
        (d.postings ⟨ctx.userAssetAccount, ctx.userShareAccount, fa, pa⟩
          s.vault.vaultTokenAccount) ∧
      s'.vault.totalAssetBalance = s.vault.totalAssetBalance + d.net := by
  obtain ⟨asset, share, inst, users, fee, net, shares, token₁, token₂, token₃, hi⟩ :=
    instantDeposit_iff.1 h
  have hready := hi.accepted.ready
  obtain ⟨hparties, hasset⟩ := hi.accepted.parties
  have hfee := hi.parts
  have hpay := hi.feePaid
  have htransfer := hi.paid
  have hmint := hi.minted
  have hshares := hi.priced
  -- the mint that was checked is the one the transfers are of
  have hfree : ∀ y, s.token.mints s.vault.assetMint = some y → y.epochFeeBps = 0 := by
    intro y hy
    exact Option.some.inj (hasset.symm.trans hy) ▸ hi.free
  obtain rfl := hi.state
  rw [← hready.primary] at hpay htransfer
  obtain ⟨f, fa, pa, hpaid⟩ := payInstantFee_feePaid hfree hpay
  -- three postings after one another: the fee, the net amount and the shares
  have hnet := (transferChecked_ok htransfer).posts (free_of_shape hpaid.shape hfree)
  have hminted := (mintTo_ok hmint).posts
  have hsplit := splitProtocolFee_add hpaid.split
  simp only at hsplit
  refine ⟨⟨shares, net, f⟩, fa, pa, hparties, ⟨?_, ?_⟩, hpaid.paidTo, ?_, rfl⟩
  · simp only [getDepositFeeAndNet, getDepositFee, bind_eq_ok, sub_eq_ok, pure_eq_ok,
      Prod.mk.injEq] at hfee
    obtain ⟨fee', hfee', net', ⟨hle, rfl⟩, rfl, rfl⟩ := hfee
    exact ⟨fee', hfee', Nat.add_sub_cancel' hle, hpaid.split⟩
  · show shares = FixedPoint.sharesFor (s.token.unit s.vault.shareMint) s.vault.nav net
    rw [hready.ownShare, unit_of_some hready.mint]
    exact (calculateShares_ok hshares).2.1
  · refine ((hpaid.posts.trans hnet).trans hminted).congr fun a => ?_
    -- the same entries, in the order of the terms
    simp only [FeeParts.postings, DepositTerms.postings, FeeParts.total, net_append, net_cons,
      net_nil, hready.reserve]
    push_cast
    split <;> omega

/-! ### Deposits in three instructions -/

/-- What the creation of a request leaves on record. -/
structure Requested (s s' : VaultState) (k user assetMint : Pubkey) (type : RequestType)
    (amount : ℕ) (r : Request) : Prop where
  found : s'.requests.lookup k = some r
  type : r.requestType = type
  amount : r.amount = amount
  owner : r.owner = user
  asset : r.assetMintAddress = assetMint
  share : r.shareMintAddress = s.vault.shareMint
  tariff : s'.tariff = s.tariff
  assets : s'.vault.totalAssetBalance = s.vault.totalAssetBalance

/-- A deposit request takes the amount into the pending vault. -/
theorem createDepositRequest_books (hplain : s.vault.trancheConfig = none)
    {ctx : CreateDepositRequest} {args : RequestArgs}
    (h : createDepositRequest s ctx args remaining = .ok s') :
    ∃ r, Requested s s' ctx.request ctx.user ctx.assetMint .deposit args.amount r ∧
      s.token.Holds ctx.userTokenAccount ctx.assetMint ctx.user ∧
      (ctx.assetMint = s.vault.assetMint → s.token.Posts s'.token
        [(ctx.userTokenAccount, -args.amount), (s.vault.pendingVault, args.amount)]) := by
  obtain ⟨d, hworked, -⟩ := createDepositRequest_worked h
  obtain ⟨context, token, s₁, s₂, s₃, id, hacc, ⟨htransfer, hinc, hadd, hnext, rfl⟩⟩ :=
    createDepositRequest_iff.1 h
  obtain ⟨hshare, -⟩ := validateRequestShareMint_plain hplain hacc.validated
  obtain ⟨asset, hasset, -, hfree⟩ := hacc.assetMint
  have hfree : ∀ y, s.token.mints ctx.assetMint = some y → y.epochFeeBps = 0 := by
    intro y hy
    exact Option.some.inj (hasset.symm.trans hy) ▸ hfree
  have htransferred := transferChecked_ok htransfer
  have htariff := hworked.toOperated.tariff htransferred.shape
  -- counting and reserving a request leave the recorded assets
  have hassets : s₃.vault.totalAssetBalance = s.vault.totalAssetBalance := by
    rw [(nextRequestId_ok hnext).vault]
    simp only [incrementPendingRequests, bind_eq_ok, pure_eq_ok] at hinc
    obtain ⟨_, -, rfl⟩ := hinc
    unfold addPendingDeposit at hadd
    split at hadd
    · simp only [bind_eq_ok, pure_eq_ok] at hadd
      obtain ⟨_, -, rfl⟩ := hadd
      rfl
    · simp only [bind_eq_ok, pure_eq_ok] at hadd
      obtain ⟨_, -, _, -, _, -, rfl⟩ := hadd
      rfl
  refine ⟨_, ⟨AList.lookup_insert _, rfl, rfl, rfl, rfl, hshare, htariff, hassets⟩,
    hacc.source, fun hprimary => ?_⟩
  -- of the primary asset the pending vault is the vault's own
  have hpending : s.vault.pendingVault = ctx.pendingVault := by
    have hpending := hacc.pendingVault
    rw [checkPendingVault, if_pos (by simp [Vault.isPrimaryAsset, hprimary])] at hpending
    exact ensure_eq_ok.1 hpending
  rw [hpending]
  exact htransferred.posts hfree

/-- **The approval of a deposit** books the terms of the tariff out of the pending vault. -/
theorem approveDeposit_sells (hplain : s.vault.trancheConfig = none) {ctx : ApproveRequest}
    {args : ApproveRequestArgs} (hr : s.requests.lookup ctx.request = some r)
    (ht : r.requestType = .deposit) (h : approveRequest s ctx args remaining = .ok s') :
    r.assetMintAddress = s.vault.assetMint ∧ s'.tariff = s.tariff ∧
      ∃ d fa pa, s.tariff.Sells r.amount d ∧ d.fee.PaidTo s fa pa ∧
        s.token.Posts s'.token [(s.vault.pendingVault, -(d.fee.total + d.net)),
          (fa, d.fee.recipient), (pa, d.fee.protocol), (s.vault.vaultTokenAccount, d.net)] ∧
        s'.vault.totalAssetBalance = s.vault.totalAssetBalance + d.net ∧
        ∃ price, s'.requests.lookup ctx.request =
          some { r with amount := d.shares, price := price, requestState := .claimable } := by
  obtain ⟨_, hworked, -⟩ := approveRequest_worked h
  obtain ⟨fee, net, shares, price, f, fa, pa, hbooked, hfee, hsum, hshares, htotal⟩ :=
    approveDeposit_books hr ht h
  obtain ⟨hm, rfl⟩ := hbooked.plain hplain
  rw [hm] at hshares
  refine ⟨hbooked.primary, hworked.toOperated.tariff hbooked.paid.shape, ⟨shares, net, f⟩, fa, pa,
    ⟨⟨fee, hfee, hsum, hbooked.paid.split⟩, hshares⟩, hbooked.paid.paidTo, ?_, htotal, _,
    hbooked.request⟩
  refine hbooked.paid.posts.congr fun a => ?_
  simp only [payments_cons, payments_nil, FeeParts.total, net_cons, net_nil]
  push_cast
  split <;> omega

/-- The claim of a deposit mints the shares. -/
theorem claimDeposit_books {ctx : Claim} (hr : s.requests.lookup ctx.request = some r)
    (ht : r.requestType = .deposit) (h : claim s ctx remaining = .ok s') :
    ∃ a, s.token.Holds a r.shareMintAddress r.owner ∧ s.token.Posts s'.token [(a, r.amount)] ∧
      s'.vault.totalAssetBalance = s.vault.totalAssetBalance := by
  obtain ⟨r', p, token, hc, hpay, rfl⟩ := claim_iff.1 h
  obtain rfl := Option.some.inj (hc.found.symm.trans hr)
  obtain ⟨program, a, rfl, ha⟩ := hc.deposit ht
  exact ⟨a, ha, (mintTo_ok hpay).posts, rfl⟩

/-- A request approved and then claimed.  Before either, anything may happen that leaves the
tariff and the request alone. -/
structure Fulfilment (created : VaultState) (k : Pubkey) where
  ready : VaultState
  ready_tariff : ready.tariff = created.tariff
  ready_request : ready.requests.lookup k = created.requests.lookup k
  approval : ApproveRequest
  approval_request : approval.request = k
  approvalArgs : ApproveRequestArgs
  approvalAccounts : List AccountInfo
  approved : VaultState
  approved_ok : approveRequest ready approval approvalArgs approvalAccounts = .ok approved
  due : VaultState
  due_tariff : due.tariff = approved.tariff
  due_request : due.requests.lookup k = approved.requests.lookup k
  collection : Claim
  collection_request : collection.request = k
  collectionAccounts : List AccountInfo
  claimed : VaultState
  claimed_ok : claim due collection collectionAccounts = .ok claimed

namespace Fulfilment

variable {created : VaultState} (F : Fulfilment created k)

/-- What the three instructions change a balance by, together. -/
def change (s : VaultState) (a : Pubkey) : ℤ :=
  s.token.change created.token a + F.ready.token.change F.approved.token a +
    F.due.token.change F.claimed.token a

/-- What they change the vault's assets by. -/
def assetsChange (s : VaultState) : ℤ :=
  (created.vault.totalAssetBalance - s.vault.totalAssetBalance) +
    (F.approved.vault.totalAssetBalance - F.ready.vault.totalAssetBalance) +
    (F.claimed.vault.totalAssetBalance - F.due.vault.totalAssetBalance)

end Fulfilment

/-- **A deposit through a request** books the same terms. -/
theorem requestedDeposit_sells (hplain : s.vault.trancheConfig = none)
    {ctx : CreateDepositRequest} {args : RequestArgs} {created : VaultState}
    (h : createDepositRequest s ctx args remaining = .ok created)
    (F : Fulfilment created ctx.request) :
    F.ready.tariff = s.tariff ∧ F.due.tariff = s.tariff ∧
    ∃ d a, s.tariff.Sells args.amount d ∧ d.fee.PaidTo F.ready a.feeAccount a.protocolAccount ∧
      s.token.Holds a.userAsset s.vault.assetMint ctx.user ∧
      F.due.token.Holds a.userShare s.vault.shareMint ctx.user ∧
      (∀ x, F.change s x = (d.postings a s.vault.vaultTokenAccount).net x) ∧
      F.assetsChange s = d.net := by
  obtain ⟨r, hrequested, huser, hcreate⟩ := createDepositRequest_books hplain h
  have htariff : F.ready.tariff = s.tariff := F.ready_tariff.trans hrequested.tariff
  have hready : F.ready.requests.lookup F.approval.request = some r := by
    rw [F.approval_request, F.ready_request, hrequested.found]
  obtain ⟨hprimary, hkept, d, fa, pa, hsells, hpaid, happrove, htotal, price, happroved⟩ :=
    approveDeposit_sells ((congrArg Tariff.trancheConfig htariff).trans hplain) hready
      hrequested.type F.approved_ok
  have hasset : F.ready.vault.assetMint = s.vault.assetMint := congrArg Tariff.assetMint htariff
  have hpending : F.ready.vault.pendingVault = s.vault.pendingVault :=
    congrArg Tariff.pendingVault htariff
  have hreserve : F.ready.vault.vaultTokenAccount = s.vault.vaultTokenAccount :=
    congrArg Tariff.reserve htariff
  have hprimary : ctx.assetMint = s.vault.assetMint := by
    rw [← hrequested.asset, hprimary, hasset]
  have hdue : F.due.requests.lookup F.collection.request =
      some { r with amount := d.shares, price := price, requestState := .claimable } := by
    rw [F.approval_request] at happroved
    rw [F.collection_request, F.due_request, happroved]
  obtain ⟨a, hholds, hclaim, hclaimed⟩ := claimDeposit_books hdue hrequested.type F.claimed_ok
  rw [htariff, hrequested.amount] at hsells
  refine ⟨htariff, F.due_tariff.trans (hkept.trans htariff), d, ⟨ctx.userTokenAccount, a, fa, pa⟩,
    hsells, hpaid, hprimary ▸ huser, ?_, fun x => ?_, ?_⟩
  · rw [← hrequested.share, ← hrequested.owner]
    exact hholds
  · have htotal := hsells.total
    unfold Fulfilment.change
    rw [hcreate hprimary x, happrove x, hclaim x, hpending, hreserve]
    simp only [DepositTerms.postings, net_cons, net_nil]
    -- what went into the pending vault has left it again
    split <;> split <;> omega
  · unfold Fulfilment.assetsChange
    rw [hrequested.assets, htotal, hclaimed]
    push_cast
    ring

/-! ### Redemptions -/

/-- What a redemption comes to. -/
structure RedeemTerms where
  gross : ℕ
  net : ℕ
  fee : FeeParts

/-- The terms of a redemption of `shares`, with `extra` taken off in addition to the withdrawal
fee. -/
structure Tariff.Buys (T : Tariff) (shares extra : ℕ) (d : RedeemTerms) : Prop where
  gross : d.gross = FixedPoint.worth T.unit shares T.nav
  fee : ∃ fee, extensionFee T.withdrawalFee d.gross = .ok fee ∧ fee + extra + d.net = d.gross ∧
    d.fee.total = fee + extra

/-- Two redemptions of as many shares differ by the extra fee of one of them only. -/
theorem Tariff.Buys.agree {T : Tariff} {shares extra : ℕ} {d d' : RedeemTerms}
    (h : T.Buys shares extra d) (h' : T.Buys shares 0 d') :
    d.gross = d'.gross ∧ d.net + extra = d'.net := by
  obtain ⟨hgross, fee, hfee, hsum, -⟩ := h
  obtain ⟨hgross', fee', hfee', hsum', -⟩ := h'
  have hsame : d.gross = d'.gross := hgross.trans hgross'.symm
  rw [← hsame] at hfee' hsum'
  obtain rfl := Except.ok.inj (hfee.symm.trans hfee')
  exact ⟨hsame, by omega⟩

/-- What a redemption books: the user's shares are burned, and the reserve pays the fees and the
net amount. -/
def RedeemTerms.postings (d : RedeemTerms) (shares : ℕ) (a : SettlementAccounts)
    (reserve : Pubkey) : Postings Pubkey :=
  [(a.userShare, -shares), (reserve, -d.gross), (a.feeAccount, d.fee.recipient),
    (a.protocolAccount, d.fee.protocol), (a.userAsset, d.net)]

/-- The fee of an instant redemption is its rate on the gross assets, rounded up. -/
theorem instantRedemptionFee_ok {bps gross : ℕ} (h : instantRedemptionFee bps gross = .ok n) :
    n = gross * bps ⌈/⌉ 10000 := by
  unfold instantRedemptionFee at h
  split at h
  · next hzero =>
    obtain rfl := pure_eq_ok.1 h
    simp [hzero]
  · simp only [FeeType.getFee, bind_eq_ok, mul_eq_ok, add_eq_ok, div_eq_ok, narrow_eq_ok] at h
    obtain ⟨_, ⟨-, rfl⟩, _, ⟨-, rfl⟩, _, ⟨-, rfl⟩, -, rfl⟩ := h
    rw [Nat.ceilDiv_eq_add_pred_div]
    rfl

/-- **An instant redemption** books the terms of the tariff, with the instant fee on top. -/
theorem instantRedeem_buys {ctx : InstantRedeem} {shares : ℕ}
    (h : instantRedeem s ctx shares remaining = .ok s') :
    ∃ d fa pa, InstantParties s ctx.user ctx.userAssetAccount ctx.userShareAccount ∧
      s.tariff.Buys shares (d.gross * s.vault.instantRedemptionFeeBps ⌈/⌉ 10000) d ∧
      d.fee.PaidTo s fa pa ∧
      s.token.Posts s'.token (d.postings shares
        ⟨ctx.userAssetAccount, ctx.userShareAccount, fa, pa⟩ s.vault.vaultTokenAccount) ∧
      s'.vault.totalAssetBalance + d.gross = s.vault.totalAssetBalance ∧
      Metered s s' .redemption (some d.gross) := by
  obtain ⟨asset, share, inst, users, gross, fee, extra, v, token₁, token₂, token, hi⟩ :=
    instantRedeem_iff.1 h
  have hready := hi.accepted.ready
  obtain ⟨hparties, hasset⟩ := hi.accepted.parties
  have hfree := hi.free
  have hgross := hi.valued
  have hfee := hi.withdrawalFee
  have hextra := hi.instantFee
  have hle := hi.covers
  have hpay := hi.feePaid
  have htransfer := hi.paid
  have htotal := hi.total
  have hlimit := hi.limit
  obtain rfl := hi.state
  simp only [Vault.consumeRedemptionRollingLimit, bind_eq_ok, pure_eq_ok] at hlimit
  obtain ⟨⟨start, used⟩, hconsume, rfl⟩ := hlimit
  have hburned := burn_ok hi.burned
  -- burning the shares leaves the mint of the asset
  have hfree : ∀ y, token₁.mints s.vault.assetMint = some y → y.epochFeeBps = 0 := by
    refine free_of_shape hburned.shape fun y hy => ?_
    exact Option.some.inj (hasset.symm.trans hy) ▸ hfree
  rw [← hready.primary] at hpay htransfer
  obtain ⟨f, fa, pa, hpaid⟩ := payInstantFee_feePaid hfree hpay
  have hnet := (transferChecked_ok htransfer).posts (free_of_shape hpaid.shape hfree)
  have hsplit := splitProtocolFee_add hpaid.split
  simp only at hsplit
  obtain rfl := instantRedemptionFee_ok hextra
  -- both fees are split as one
  have htotalFee : f.total = fee + gross * s.vault.instantRedemptionFeeBps ⌈/⌉ 10000 := by
    unfold FeeParts.total
    omega
  refine ⟨⟨gross, gross - (fee + gross * s.vault.instantRedemptionFeeBps ⌈/⌉ 10000), f⟩, fa, pa,
    hparties, ⟨?_, fee, hfee, ?_, htotalFee⟩, hpaid.paidTo, ?_, Nat.sub_add_cancel htotal, hconsume⟩
  · show gross = FixedPoint.worth (s.token.unit s.vault.shareMint) shares s.vault.nav
    rw [hready.ownShare, unit_of_some hready.mint]
    exact (calculateAssets_eq_ok.1 hgross).2.2.2.2
  · exact Nat.add_sub_cancel' hle
  · refine ((hburned.posts.trans hpaid.posts).trans hnet).congr fun a => ?_
    -- what leaves the reserve is the gross amount
    have hsum : f.recipient + f.protocol + (gross - (fee +
        gross * s.vault.instantRedemptionFeeBps ⌈/⌉ 10000)) = gross := by
      unfold FeeParts.total at htotalFee
      omega
    simp only [FeeParts.postings, RedeemTerms.postings, net_append, net_cons, net_nil,
      hready.reserve]
    generalize gross - (fee + gross * s.vault.instantRedemptionFeeBps ⌈/⌉ 10000) = net at hsum
    push_cast [← hsum]
    split <;> split <;> omega

/-! ### Redemptions in three instructions -/

/-- A redeem request burns the shares. -/
theorem createRedeemRequest_books (hplain : s.vault.trancheConfig = none)
    {ctx : CreateRedeemRequest} {args : RequestArgs}
    (h : createRedeemRequest s ctx args remaining = .ok s') :
    ∃ r, Requested s s' ctx.request ctx.user ctx.assetMint .redeem args.amount r ∧
      s.token.Holds ctx.userShareAccount s.vault.shareMint ctx.user ∧
      s.token.Posts s'.token [(ctx.userShareAccount, -args.amount)] := by
  obtain ⟨d, hworked, -⟩ := createRedeemRequest_worked h
  obtain ⟨context, token, s₁, s₂, id, hacc, ⟨hburn, hinc, hnext, rfl⟩⟩ :=
    createRedeemRequest_iff.1 h
  obtain ⟨hshare, -⟩ := validateRequestShareMint_plain hplain hacc.validated
  have hburned := burn_ok hburn
  have htariff := hworked.toOperated.tariff hburned.shape
  have hassets : s₂.vault.totalAssetBalance = s.vault.totalAssetBalance := by
    rw [(nextRequestId_ok hnext).vault]
    simp only [incrementPendingRequests, bind_eq_ok, pure_eq_ok] at hinc
    obtain ⟨_, -, rfl⟩ := hinc
    rfl
  refine ⟨_, ⟨AList.lookup_insert _, rfl, rfl, rfl, rfl, hshare, htariff, hassets⟩, ?_,
    hburned.posts⟩
  rw [← hshare]
  exact hacc.source

/-- **The approval of a redemption** books the terms of the tariff into the pending vault. -/
theorem approveRedeem_buys (hplain : s.vault.trancheConfig = none) {ctx : ApproveRequest}
    {args : ApproveRequestArgs} (hr : s.requests.lookup ctx.request = some r)
    (ht : r.requestType = .redeem) (h : approveRequest s ctx args remaining = .ok s') :
    r.assetMintAddress = s.vault.assetMint ∧ s'.tariff = s.tariff ∧
      (∀ y, s.token.mints s.vault.assetMint = some y → y.epochFeeBps = 0) ∧
      ∃ d fa pa, s.tariff.Buys r.amount 0 d ∧ d.fee.PaidTo s fa pa ∧
        s.token.Posts s'.token [(s.vault.vaultTokenAccount, -d.gross), (fa, d.fee.recipient),
          (pa, d.fee.protocol), (s.vault.pendingVault, d.net)] ∧
        s'.vault.totalAssetBalance + d.gross = s.vault.totalAssetBalance ∧
        Metered s s' .redemption (some d.gross) ∧
        ∃ price, s'.requests.lookup ctx.request =
          some { r with amount := d.net, price := price, requestState := .claimable } := by
  obtain ⟨_, hworked, -⟩ := approveRequest_worked h
  obtain ⟨gross, fee, net, price, f, fa, pa, hbooked, hfee, hsum, hgross, htotal, hlimit⟩ :=
    approveRedeem_books hr ht h
  obtain ⟨hm, rfl⟩ := hbooked.plain hplain
  rw [hm] at hgross
  have hparts := hbooked.paid.total
  refine ⟨hbooked.primary, hworked.toOperated.tariff hbooked.paid.shape, hbooked.free,
    ⟨gross, net, f⟩, fa, pa, ⟨hgross, fee, hfee, hsum, hparts⟩, hbooked.paid.paidTo, ?_, htotal,
    hlimit, _, hbooked.request⟩
  refine hbooked.paid.posts.congr fun a => ?_
  unfold FeeParts.total at hparts
  simp only [payments_cons, payments_nil, net_cons, net_nil]
  push_cast [← hsum]
  split <;> split <;> omega

/-- The claim of a redemption pays the assets out of the pending vault. -/
theorem claimRedeem_books {ctx : Claim} (hr : s.requests.lookup ctx.request = some r)
    (ht : r.requestType = .redeem) (hprimary : r.assetMintAddress = s.vault.assetMint)
    (hfree : ∀ y, s.token.mints s.vault.assetMint = some y → y.epochFeeBps = 0)
    (h : claim s ctx remaining = .ok s') :
    ∃ a, s.token.Holds a s.vault.assetMint r.owner ∧
      s.token.Posts s'.token [(s.vault.pendingVault, -r.amount), (a, r.amount)] ∧
      s'.vault.totalAssetBalance = s.vault.totalAssetBalance := by
  obtain ⟨r', p, token, hc, hpay, rfl⟩ := claim_iff.1 h
  obtain rfl := Option.some.inj (hc.found.symm.trans hr)
  obtain ⟨program, pv, a, rfl, hpending, ha⟩ := hc.redeem ht
  rw [hprimary] at hpending hpay ha
  rw [checkPendingVault, if_pos (by simp [Vault.isPrimaryAsset])] at hpending
  rw [ensure_eq_ok.1 hpending]
  exact ⟨a, ha, (transferChecked_ok hpay).posts hfree, rfl⟩

/-- **A redemption through a request** books the terms without the instant fee, and charges the
redemption limit in its approval only. -/
theorem requestedRedemption_buys (hplain : s.vault.trancheConfig = none)
    {ctx : CreateRedeemRequest} {args : RequestArgs} {created : VaultState}
    (h : createRedeemRequest s ctx args remaining = .ok created)
    (F : Fulfilment created ctx.request) :
    ∃ d a, s.tariff.Buys args.amount 0 d ∧
      d.fee.PaidTo F.ready a.feeAccount a.protocolAccount ∧
      s.token.Holds a.userShare s.vault.shareMint ctx.user ∧
      F.due.token.Holds a.userAsset s.vault.assetMint ctx.user ∧
      (∀ x, F.change s x = (d.postings args.amount a s.vault.vaultTokenAccount).net x) ∧
      F.assetsChange s = -d.gross ∧
      Metered F.ready F.approved .redemption (some d.gross) := by
  obtain ⟨r, hrequested, huser, hcreate⟩ := createRedeemRequest_books hplain h
  have htariff : F.ready.tariff = s.tariff := F.ready_tariff.trans hrequested.tariff
  have hready : F.ready.requests.lookup F.approval.request = some r := by
    rw [F.approval_request, F.ready_request, hrequested.found]
  obtain ⟨hprimary, happrovedTariff, hfree, d, fa, pa, hbuys, hpaid, happrove, htotal, hmetered,
    price, happroved⟩ :=
    approveRedeem_buys ((congrArg Tariff.trancheConfig htariff).trans hplain) hready
      hrequested.type F.approved_ok
  have hdueTariff : F.due.tariff = F.ready.tariff := F.due_tariff.trans happrovedTariff
  have hasset : F.due.vault.assetMint = F.ready.vault.assetMint :=
    congrArg Tariff.assetMint hdueTariff
  have hfree' : ∀ y, F.due.token.mints F.due.vault.assetMint = some y → y.epochFeeBps = 0 := by
    have hrate : (F.due.token.mints F.due.vault.assetMint).map Mint.epochFeeBps =
        (F.ready.token.mints F.ready.vault.assetMint).map Mint.epochFeeBps :=
      congrArg Tariff.transferFeeBps hdueTariff
    intro y hy
    rw [hy] at hrate
    obtain ⟨y₀, hy₀, hy₁⟩ := Option.map_eq_some_iff.1 hrate.symm
    exact hy₁ ▸ hfree y₀ hy₀
  rw [F.approval_request] at happroved
  have hdue : F.due.requests.lookup F.collection.request =
      some { r with amount := d.net, price := price, requestState := .claimable } := by
    rw [F.collection_request, F.due_request, happroved]
  obtain ⟨a, hholds, hclaim, hclaimed⟩ :=
    claimRedeem_books hdue hrequested.type (hprimary.trans hasset.symm) hfree' F.claimed_ok
  have hassetMint : F.due.vault.assetMint = s.vault.assetMint :=
    hasset.trans (congrArg Tariff.assetMint htariff)
  have hpending : F.due.vault.pendingVault = F.ready.vault.pendingVault :=
    congrArg Tariff.pendingVault hdueTariff
  have hreserve : F.ready.vault.vaultTokenAccount = s.vault.vaultTokenAccount :=
    congrArg Tariff.reserve htariff
  rw [htariff, hrequested.amount] at hbuys
  refine ⟨d, ⟨a, ctx.userShareAccount, fa, pa⟩, hbuys, hpaid, huser, ?_, fun x => ?_, ?_, hmetered⟩
  · rw [← hassetMint, ← hrequested.owner]
    exact hholds
  · unfold Fulfilment.change
    rw [hcreate x, happrove x, hclaim x, hpending, hreserve]
    simp only [RedeemTerms.postings, net_cons, net_nil]
    -- what went into the pending vault has left it again
    by_cases hx : F.ready.vault.pendingVault = x
    · simp only [if_pos hx]
      omega
    · simp only [if_neg hx]
      omega
  · unfold Fulfilment.assetsChange
    rw [hrequested.assets, hclaimed]
    omega

/-! ### Agreement -/

/-- No part of the fee goes into the reserve. -/
def SettlementAccounts.Apart (a : SettlementAccounts) (f : FeeParts) (reserve : Pubkey) : Prop :=
  (0 < f.recipient → a.feeAccount ≠ reserve) ∧ (0 < f.protocol → a.protocolAccount ≠ reserve)

/-- An instant deposit and a deposit through a request are the same deposit: both pay the same
parts of the amount to the fee recipient, the protocol and the reserve, and give the user as many
shares. -/
structure DepositsAgree (s s' : VaultState) (user : Pubkey) (amount : ℕ) {created : VaultState}
    (F : Fulfilment created k) (d : DepositTerms) (a a' : SettlementAccounts) : Prop where
  paid : d.fee.total + d.net = amount
  instant_user : s.token.Holds a.userAsset s.vault.assetMint user ∧
    s.token.Holds a.userShare s.vault.shareMint user
  request_user : s.token.Holds a'.userAsset s.vault.assetMint user ∧
    F.due.token.Holds a'.userShare s.vault.shareMint user
  recipient : F.ready.vault.feeRecipient = s.vault.feeRecipient
  instant_fee : d.fee.PaidTo s a.feeAccount a.protocolAccount
  request_fee : d.fee.PaidTo F.ready a'.feeAccount a'.protocolAccount
  instant_books : s.token.Posts s'.token (d.postings a s.vault.vaultTokenAccount)
  request_books : ∀ x, F.change s x = (d.postings a' s.vault.vaultTokenAccount).net x
  instant_assets : (s'.vault.totalAssetBalance : ℤ) - s.vault.totalAssetBalance = d.net
  request_assets : F.assetsChange s = d.net
  instant_reserve : a.Apart d.fee s.vault.vaultTokenAccount →
    s.token.change s'.token s.vault.vaultTokenAccount = d.net
  request_reserve : a'.Apart d.fee s.vault.vaultTokenAccount →
    F.change s s.vault.vaultTokenAccount = d.net

/-- An instant redemption and one through a request burn the same shares for the same gross
assets; the payouts differ by the instant fee. -/
structure RedemptionsAgree (s s' : VaultState) (user : Pubkey) (shares : ℕ) {created : VaultState}
    (F : Fulfilment created k) (d d' : RedeemTerms) (a a' : SettlementAccounts) : Prop where
  gross : d.gross = d'.gross
  payout : d.net + d.gross * s.vault.instantRedemptionFeeBps ⌈/⌉ 10000 = d'.net
  instant_user : s.token.Holds a.userShare s.vault.shareMint user ∧
    s.token.Holds a.userAsset s.vault.assetMint user
  request_user : s.token.Holds a'.userShare s.vault.shareMint user ∧
    F.due.token.Holds a'.userAsset s.vault.assetMint user
  instant_books : s.token.Posts s'.token (d.postings shares a s.vault.vaultTokenAccount)
  request_books : ∀ x, F.change s x = (d'.postings shares a' s.vault.vaultTokenAccount).net x
  instant_assets : (s'.vault.totalAssetBalance : ℤ) - s.vault.totalAssetBalance = -d.gross
  request_assets : F.assetsChange s = -d.gross
  instant_limit : Metered s s' .redemption (some d.gross)
  request_limit : Metered F.ready F.approved .redemption (some d.gross)
  created_limit : created.window .redemption = s.window .redemption
  claimed_limit : F.claimed.window .redemption = F.due.window .redemption

/-- What a deposit brings the reserve. -/
theorem DepositTerms.net_reserve {d : DepositTerms} {a : SettlementAccounts} {reserve : Pubkey}
    (hasset : a.userAsset ≠ reserve) (hshare : a.userShare ≠ reserve)
    (hapart : a.Apart d.fee reserve) : (d.postings a reserve).net reserve = d.net := by
  have hfee : (if a.feeAccount = reserve then (d.fee.recipient : ℤ) else 0) = 0 := by
    split
    · next he =>
      rw [Nat.eq_zero_of_not_pos fun hpos => hapart.1 hpos he]
      rfl
    · rfl
  have hprotocol : (if a.protocolAccount = reserve then (d.fee.protocol : ℤ) else 0) = 0 := by
    split
    · next he =>
      rw [Nat.eq_zero_of_not_pos fun hpos => hapart.2 hpos he]
      rfl
    · rfl
  simp only [DepositTerms.postings, net_cons, net_nil, hfee, hprotocol, if_neg hasset,
    if_neg hshare, if_true]
  omega

/-- The reserve of a settlement through a request is the vault's, when it is due as before. -/
theorem holds_reserve {s₁ : VaultState} (htariff : s₁.tariff = s.tariff)
    (h : s.token.Holds s.vault.vaultTokenAccount s.vault.assetMint s.key) :
    s₁.token.Holds s.vault.vaultTokenAccount s.vault.assetMint s.key := by
  have hreserve : s₁.vault.vaultTokenAccount = s.vault.vaultTokenAccount :=
    congrArg Tariff.reserve htariff
  have hcustody : s₁.token.custody s₁.vault.vaultTokenAccount =
      s.token.custody s.vault.vaultTokenAccount := congrArg Tariff.custody htariff
  rw [hreserve] at hcustody
  rw [holds_iff_custody] at h ⊢
  rw [hcustody, h]

/-- **Instant settlement agrees with requests.** On a plain vault, an instant deposit and a deposit
of as much through a request that is created in the same state and settled under the same tariff
agree, and so do an instant redemption and one through a request. -/
theorem instant_settlement_agrees (s : VaultState) :
    (∀ ctx amount accounts s', instantDeposit s ctx amount accounts = .ok s' →
      ∀ (request : CreateDepositRequest) operator accounts' created, request.user = ctx.user →
        createDepositRequest s request ⟨amount, operator⟩ accounts' = .ok created →
        ∀ F : Fulfilment created request.request,
          ∃ d a a', DepositsAgree s s' ctx.user amount F d a a') ∧
    ∀ ctx shares accounts s', instantRedeem s ctx shares accounts = .ok s' →
      ∀ (request : CreateRedeemRequest) operator accounts' created, request.user = ctx.user →
        createRedeemRequest s request ⟨shares, operator⟩ accounts' = .ok created →
        ∀ F : Fulfilment created request.request,
          ∃ d d' a a', RedemptionsAgree s s' ctx.user shares F d d' a a' := by
  constructor
  · intro ctx amount accounts s' h request operator accounts' created huser hcreate F
    obtain ⟨d, fa, pa, hparties, hsells, hpaid, hbooks, htotal⟩ := instantDeposit_sells h
    obtain ⟨hready, hdue, d', a', hsells', hpaid', hasset', hshare', hbooks', htotal'⟩ :=
      requestedDeposit_sells hparties.plain hcreate F
    -- one tariff and one amount leave no choice of terms
    obtain rfl := hsells.unique hsells'
    rw [huser] at hasset' hshare'
    have hreserve := holds_reserve hdue hparties.reserve
    refine ⟨d, ⟨ctx.userAssetAccount, ctx.userShareAccount, fa, pa⟩, a', hsells.total,
      ⟨hparties.userAsset, hparties.userShare⟩, ⟨hasset', hshare'⟩,
      congrArg Tariff.feeRecipient hready, hpaid, hpaid', hbooks, hbooks', ?_, htotal',
        fun hapart => ?_,
      fun hapart => ?_⟩
    · rw [htotal]
      push_cast
      ring
    · rw [hbooks]
      exact d.net_reserve (hparties.userAsset.ne_of_owner hparties.reserve hparties.foreign)
        (hparties.userShare.ne_of_owner hparties.reserve hparties.foreign) hapart
    · rw [hbooks']
      exact d.net_reserve (hasset'.ne_of_owner hparties.reserve hparties.foreign)
        (hshare'.ne_of_owner hreserve hparties.foreign) hapart
  · intro ctx shares accounts s' h request operator accounts' created huser hcreate F
    obtain ⟨d, fa, pa, hparties, hbuys, hpaid, hbooks, htotal, hlimit⟩ := instantRedeem_buys h
    obtain ⟨d', a', hbuys', hpaid', hshare', hasset', hbooks', htotal', hlimit'⟩ :=
      requestedRedemption_buys hparties.plain hcreate F
    -- the gross amounts agree, and the payouts but for the instant fee
    obtain ⟨hgross, hpayout⟩ := hbuys.agree hbuys'
    rw [huser] at hasset' hshare'
    -- only the approval charges the window of redemptions
    have hcreated : Unmetered s created :=
      execRequest_unmetered (i := .createRedeemRequest request ⟨shares, operator⟩) hcreate
        fun _ _ hi => nomatch hi
    have hclaimed : Unmetered F.due F.claimed :=
      execRequest_unmetered (i := .claim F.collection) F.claimed_ok fun _ _ hi => nomatch hi
    have hwindow : ∀ {s s' : VaultState}, Unmetered s s' →
        s'.window .redemption = s.window .redemption := by
      intro s s' hkept
      exact (Prod.mk.inj (Prod.mk.inj hkept.windows).2).1
    refine ⟨d, d', ⟨ctx.userAssetAccount, ctx.userShareAccount, fa, pa⟩, a', hgross, hpayout,
      ⟨hparties.userShare, hparties.userAsset⟩, ⟨hshare', hasset'⟩, hbooks, hbooks', ?_, ?_, hlimit,
      ?_, hwindow hcreated, hwindow hclaimed⟩
    · rw [← htotal]
      push_cast
      ring
    · rw [htotal', hgross]
    · rw [hgross]
      exact hlimit'

/-! ### A vault with all fees -/

namespace Scenario

/-- A plain vault with fees on deposits, withdrawals and instant redemptions, a tenth of which
goes to the protocol, whose user has bought shares at a NAV of 10. -/
def withAllFees : List Action :=
  [anyNav, .config (.initDepositFee curator (.percentage 500)),
    .config (.initWithdrawalFee curator (.percentage 500))] ++ openInstant ++
  [start, post 10, openFeeAssetAccount, depositNow 1000,
    .config (.updateVault curator { protocolFeeBps := some 1000 })]

/-- The same account for both parts of a fee. -/
def bothFees : List AccountInfo := [{ key := feeAsset }, { key := feeAsset }]

def instantDepositAccounts : InstantDeposit where
  user := user
  assetMint := asset
  shareMint := senior
  instantUser := none
  vaultTokenAccount := reserve
  userAssetAccount := userAsset
  userShareAccount := userSenior
  feeRecipientTokenAccount := some feeAsset
  protocolFeeRecipientTokenAccount := some feeAsset
  assetTokenProgram := .token
  shareTokenProgram := .token

def instantRedeemAccounts : InstantRedeem where
  user := user
  assetMint := asset
  shareMint := senior
  instantUser := none
  vaultTokenAccount := reserve
  userShareAccount := userSenior
  userAssetAccount := userAsset
  feeRecipientTokenAccount := some feeAsset
  protocolFeeRecipientTokenAccount := some feeAsset
  assetTokenProgram := .token
  shareTokenProgram := .token

def depositRequestAccounts : CreateDepositRequest where
  user := user
  assetMint := asset
  shareMint := senior
  vaultAsset := none
  request := address 100
  userTokenAccount := userAsset
  pendingVault := pendingVault
  assetTokenProgram := .token

def redeemRequestAccounts : CreateRedeemRequest where
  user := user
  assetMint := asset
  shareMint := senior
  vaultAsset := none
  request := address 101
  userShareAccount := userSenior
  shareTokenProgram := .token

def claimAccounts (k : ℕ) : Claim where
  user := user
  owner := user
  assetMint := asset
  shareMint := senior
  vaultAsset := none
  request := address k
  pendingVault := some pendingVault
  userShareAccount := some userSenior
  userAssetAccount := some userAsset
  assetTokenProgram := .token
  shareTokenProgram := some .token

/-- Whether the request at `k` can be approved and claimed. -/
def fulfils (k : ℕ) (type : RequestType) (amount : ℕ) (s : VaultState) : Bool :=
  succeedsWith (approveRequest s (approval k senior) ⟨user, type, amount, 0, 1⟩ bothFees) fun s' =>
    succeedsWith (claim s' (claimAccounts k) []) fun _ => true

theorem of_fulfils {k : ℕ} {type : RequestType} {amount : ℕ} {s : VaultState}
    (h : fulfils k type amount s = true) : Nonempty (Fulfilment s (address k)) := by
  obtain ⟨s₁, happrove, h⟩ := of_succeedsWith h
  obtain ⟨s₂, hclaim, -⟩ := of_succeedsWith h
  exact ⟨{
    ready := s
    ready_tariff := rfl
    ready_request := rfl
    approval := approval k senior
    approval_request := rfl
    approvalArgs := ⟨user, type, amount, 0, 1⟩
    approvalAccounts := bothFees
    approved := s₁
    approved_ok := happrove
    due := s₁
    due_tariff := rfl
    due_request := rfl
    collection := claimAccounts k
    collection_request := rfl
    collectionAccounts := []
    claimed := s₂
    claimed_ok := hclaim }⟩

end Scenario

open Scenario in
/-- **Non-vacuity.** A reachable vault on which 500 assets can be deposited and 50 shares redeemed
either way. -/
theorem instant_settlement_agrees_with_fees : ∃ s, VaultState.IsReachable s ∧
    (∃ s' created, ∃ F : Fulfilment created (address 100), ∃ d a a',
      DepositsAgree s s' user 500 F d a a') ∧
    ∃ s' created, ∃ F : Fulfilment created (address 101), ∃ d d' a a',
      RedemptionsAgree s s' user 50 F d d' a a' := by
  obtain ⟨-, s, hs, h⟩ := exists_reachable 0 0 withAllFees (fun _ s =>
    (succeedsWith (instantDeposit s instantDepositAccounts 500 []) (fun _ => true) &&
      succeedsWith (createDepositRequest s depositRequestAccounts ⟨500, none⟩ [])
        (fulfils 100 .deposit 500)) &&
    (succeedsWith (instantRedeem s instantRedeemAccounts 50 []) (fun _ => true) &&
      succeedsWith (createRedeemRequest s redeemRequestAccounts ⟨50, none⟩ [])
        (fulfils 101 .redeem 50))) (by decide +kernel)
  simp only [Bool.and_eq_true] at h
  obtain ⟨⟨hdeposit, hrequest⟩, hredeem, hrequest'⟩ := h
  obtain ⟨s', hs', -⟩ := of_succeedsWith hdeposit
  obtain ⟨created, hcreated, hF⟩ := of_succeedsWith hrequest
  obtain ⟨F⟩ := of_fulfils hF
  obtain ⟨s'', hs'', -⟩ := of_succeedsWith hredeem
  obtain ⟨created', hcreated', hF'⟩ := of_succeedsWith hrequest'
  obtain ⟨F'⟩ := of_fulfils hF'
  exact ⟨s, hs,
    ⟨s', created, F, (instant_settlement_agrees s).1 _ _ _ _ hs' _ _ _ _ rfl hcreated F⟩,
    ⟨s'', created', F', (instant_settlement_agrees s).2 _ _ _ _ hs'' _ _ _ _ rfl hcreated' F'⟩⟩

end AsyncVault
