/-
AsyncVault/Handlers.lean

When the request handlers succeed, and what they then write.

The specifications of the later modules look at an accepted instruction from
many sides: its tokens, its order book, its counters, its settings.  What it
checked and wrote is said here once, under the names of the checks, and they
take from it what they need (`createVault_iff`, `createDepositRequest_iff`,
`createRedeemRequest_iff`, `approveRequest_iff`, `claim_iff`, and `cancelRequest_iff`
with its siblings for the instructions that give back what a request took,
`instantDeposit_iff`, `instantRedeem_iff` and `updateVaultNav_iff`).
-/
import AsyncVault.Parts
import AsyncVault.Lib.Payouts

namespace AsyncVault

open Checked TokenLedger KeyedStore Function

variable {s s' : VaultState} {r : Request} {remaining : List AccountInfo}
variable {p : Payout Pubkey} {token : Ledger Pubkey}

/-! ### New vaults -/

/-- The mints and accounts a vault is created with: the reserve is opened in `token₁`, the
pending vault in `token₂`, and the share mint changes hands in `token`. -/
structure CreateVault.Accepted (ctx : CreateVault) (w : World) (share : Mint Pubkey)
    (token₁ token₂ token : Ledger Pubkey) : Prop where
  signer : ctx.mintAuthority ≠ ctx.vault
  assetMint : ∃ y, w.token.mints ctx.assetMint = some y ∧ y.epochFeeBps = 0
  shareMint : w.token.mints ctx.shareMint = some share
  differ : ctx.shareMint ≠ ctx.assetMint
  reserve : w.token.initializeAccount ctx.assetTokenProgram ctx.reserve ctx.assetMint ctx.vault =
    .ok token₁
  pendingVault : token₁.initializeAccount ctx.assetTokenProgram ctx.pendingVault ctx.assetMint
    ctx.vault = .ok token₂
  unissued : share.supply = 0
  issuable : validateShareMintExtensions share = .ok ()
  authority : token₂.setMintAuthority ctx.shareTokenProgram ctx.shareMint ctx.mintAuthority
    (some ctx.vault) = .ok token

/-- The state a new vault starts in, with the tokens `token`. -/
def World.newVault (w : World) (ctx : CreateVault) (args : AsyncVaultArgs)
    (token : Ledger Pubkey) : VaultState where
  key := ctx.vault
  trancheConfigPda := w.trancheConfigPda
  protocolFeeConfigPda := w.protocolFeeConfigPda
  tokenProgramIds := w.tokenProgramIds
  clock := w.clock
  vault := initialVault ctx args
  extensions := {}
  trancheConfig := none
  vaultAssets := fun _ => none
  requests := ∅
  instantUsers := fun _ => none
  protocolFeeConfig := w.protocolFeeConfig
  pendingVaultUpdates := fun _ => none
  pendingFeeUpdates := fun _ => none
  pendingExtensionUpdates := fun _ => none
  token := token

/-- **What the creation of a vault does.** -/
theorem createVault_iff {w : World} {ctx : CreateVault} {args : AsyncVaultArgs} :
    createVault w ctx args = .ok s ↔ ∃ share token₁ token₂ token,
      ctx.Accepted w share token₁ token₂ token ∧ s = w.newVault ctx args token := by
  simp only [createVault, validateAssetMintExtensions, bind_eq_ok, okOr_eq_ok, require_eq_ok,
    ensure_eq_ok, cpi_eq_ok, pure_eq_ok]
  constructor
  · rintro ⟨-, hsigner, y, hy, share, hshare, -, hdiffer, token₁, h₁, token₂, h₂, -, hzero, -, hfee,
      _, hissuable, token, h₃, rfl⟩
    exact ⟨share, token₁, token₂, token,
      ⟨hsigner, ⟨y, hy, hfee⟩, hshare, hdiffer, h₁, h₂, hzero, hissuable, h₃⟩, rfl⟩
  · rintro ⟨share, token₁, token₂, token, h, rfl⟩
    obtain ⟨y, hy, hfee⟩ := h.assetMint
    exact ⟨(), h.signer, y, hy, share, h.shareMint, (), h.differ, token₁, h.reserve, token₂,
      h.pendingVault, (), h.unissued, (), hfee, (), h.issuable, token, h.authority, rfl⟩

/-! ### Opening -/

section

variable {args : RequestArgs} {context : RequestShareMintContext}

/-- The request a deposit opens, with its place in the queue. -/
def CreateDepositRequest.opened (ctx : CreateDepositRequest) (s : VaultState) (args : RequestArgs)
    (context : RequestShareMintContext) (id : Option ℕ) : Request where
  vault := s.key
  requestType := .deposit
  requestState := .pending
  owner := ctx.user
  amount := args.amount
  price := settlementNav context.trancheNav s.vault.nav
  assetMintAddress := ctx.assetMint
  shareMintAddress := ctx.shareMint
  createdAt := s.clock.unixTimestamp
  navUpdateVersion := s.vault.navVersion
  operator := args.operator
  subscriptionQueueId := id
  redemptionQueueId := none

/-- What the creation of a deposit request checks. -/
structure CreateDepositRequest.Accepted (ctx : CreateDepositRequest) (s : VaultState)
    (args : RequestArgs) (remaining : List AccountInfo) (context : RequestShareMintContext) :
    Prop where
  signer : ctx.user ≠ s.key
  assetMint : ∃ y, s.token.mints ctx.assetMint = some y ∧ y.program = ctx.assetTokenProgram ∧
    y.epochFeeBps = 0
  shareMint : ∃ y, s.token.mints ctx.shareMint = some y
  fresh : s.requests.lookup ctx.request = none
  source : s.token.Holds ctx.userTokenAccount ctx.assetMint ctx.user
  escrow : s.token.Holds ctx.pendingVault ctx.assetMint s.key
  running : s.vault.initialized = true ∧ s.vault.paused = false
  validated : validateRequestShareMint s ctx.shareMint remaining = .ok context
  cap : checkDepositCap s ctx.assetMint ctx.vaultAsset args.amount = .ok ()
  pendingVault : checkPendingVault s ctx.assetMint ctx.vaultAsset ctx.pendingVault = .ok ()
  unpaused : s.extensions.checkSubscriptionsPaused = .ok ()
  minimum : s.extensions.checkMinSubscriptionAmount args.amount = .ok ()
  limits : enforceTrancheRequestLimits context ctx.shareMint .deposit args.amount = .ok ()
  fee : ∃ fee, getDepositFee s.extensions args.amount = .ok fee ∧ fee < args.amount

/-- What it then does: the tokens move to `token`, `s₁` counts the request, `s₂` reserves its
amount, and in `s₃` it has its place in the queue. -/
structure CreateDepositRequest.Opens (ctx : CreateDepositRequest) (s s' : VaultState)
    (args : RequestArgs) (remaining : List AccountInfo) (context : RequestShareMintContext)
    (token : Ledger Pubkey) (s₁ s₂ s₃ : VaultState) (id : Option ℕ) : Prop where
  paid : s.token.transferChecked ctx.assetTokenProgram ctx.userTokenAccount ctx.assetMint
    ctx.pendingVault ctx.user args.amount = .ok token
  counted : incrementPendingRequests s = .ok s₁
  reserved : addPendingDeposit s₁ ctx.assetMint ctx.vaultAsset args.amount = .ok s₂
  queued : nextRequestId s₂ context ctx.shareMint .deposit remaining = .ok (s₃, id)
  state : s' = s₃.put token (s₃.requests.insert ctx.request (ctx.opened s args context id))

/-- **What the creation of a deposit request does.** -/
theorem createDepositRequest_iff {ctx : CreateDepositRequest} :
    createDepositRequest s ctx args remaining = .ok s' ↔ ∃ context token s₁ s₂ s₃ id,
      ctx.Accepted s args remaining context ∧
        ctx.Opens s s' args remaining context token s₁ s₂ s₃ id := by
  simp only [createDepositRequest, validateAssetMintExtensions, bind_eq_ok, VaultState.signer_eq_ok,
    VaultState.mintAccount_eq_ok, VaultState.initRequest_eq_ok, VaultState.tokenAccount_eq_ok,
    VaultState.tokenProgram, Vault.assertUnpausedAndInitialized_eq_ok, require_eq_ok, ensure_eq_ok,
    cpi_eq_ok, pure_eq_ok]
  constructor
  · rintro ⟨-, hsigner, y, hy, z, hz, -, hfresh, x, hx, w, hw, -, hprogram, -, hrunning, context,
      hcontext, _, hcap, _, hpending, _, hunpaused, _, hmin, _, hlimits, fee, hfee, -, hless, -,
      hfree, token, hpaid, s₁, h₁, s₂, h₂, ⟨s₃, id⟩, h₃, rfl⟩
    exact ⟨context, token, s₁, s₂, s₃, id, ⟨hsigner, ⟨y, hy, hprogram, hfree⟩, ⟨z, hz⟩, hfresh,
      ⟨x, hx⟩, ⟨w, hw⟩, hrunning, hcontext, hcap, hpending, hunpaused, hmin, hlimits,
      ⟨fee, hfee, hless⟩⟩, ⟨hpaid, h₁, h₂, h₃, rfl⟩⟩
  · rintro ⟨context, token, s₁, s₂, s₃, id, h, ⟨hpaid, h₁, h₂, h₃, rfl⟩⟩
    obtain ⟨y, hy, hprogram, hfree⟩ := h.assetMint
    obtain ⟨z, hz⟩ := h.shareMint
    obtain ⟨x, hx⟩ := h.source
    obtain ⟨w, hw⟩ := h.escrow
    obtain ⟨fee, hfee, hless⟩ := h.fee
    exact ⟨(), h.signer, y, hy, z, hz, (), h.fresh, x, hx, w, hw, (), hprogram, (), h.running,
      context, h.validated, (), h.cap, (), h.pendingVault, (), h.unpaused, (), h.minimum, (),
      h.limits, fee, hfee, (), hless, (), hfree, token, hpaid, s₁, h₁, s₂, h₂, (s₃, id), h₃, rfl⟩

/-- The request a redemption opens, with its place in the queue. -/
def CreateRedeemRequest.opened (ctx : CreateRedeemRequest) (s : VaultState) (args : RequestArgs)
    (context : RequestShareMintContext) (id : Option ℕ) : Request where
  vault := s.key
  requestType := .redeem
  requestState := .pending
  owner := ctx.user
  amount := args.amount
  price := settlementNav context.trancheNav s.vault.nav
  assetMintAddress := ctx.assetMint
  shareMintAddress := ctx.shareMint
  createdAt := s.clock.unixTimestamp
  navUpdateVersion := s.vault.navVersion
  operator := args.operator
  subscriptionQueueId := none
  redemptionQueueId := id

/-- What the creation of a redeem request checks. -/
structure CreateRedeemRequest.Accepted (ctx : CreateRedeemRequest) (s : VaultState)
    (args : RequestArgs) (remaining : List AccountInfo) (context : RequestShareMintContext) :
    Prop where
  signer : ctx.user ≠ s.key
  assetMint : ∃ y, s.token.mints ctx.assetMint = some y
  shareMint : ∃ y, s.token.mints ctx.shareMint = some y
  fresh : s.requests.lookup ctx.request = none
  source : s.token.Holds ctx.userShareAccount ctx.shareMint ctx.user
  running : s.vault.initialized = true ∧ s.vault.paused = false
  validated : validateRequestShareMint s ctx.shareMint remaining = .ok context
  supported : checkSupportedAsset s ctx.assetMint ctx.vaultAsset = .ok ()
  unpaused : s.extensions.checkRedemptionsPaused = .ok ()
  minimum : s.extensions.checkMinRedemptionAmount args.amount = .ok ()
  positive : 0 < args.amount
  limits : enforceTrancheRequestLimits context ctx.shareMint .redeem args.amount = .ok ()

/-- What it then does: the shares are burned in `token`, `s₁` counts the request, and in `s₂` it
has its place in the queue. -/
structure CreateRedeemRequest.Opens (ctx : CreateRedeemRequest) (s s' : VaultState)
    (args : RequestArgs) (remaining : List AccountInfo) (context : RequestShareMintContext)
    (token : Ledger Pubkey) (s₁ s₂ : VaultState) (id : Option ℕ) : Prop where
  burned : s.token.burn ctx.shareTokenProgram ctx.userShareAccount ctx.shareMint ctx.user
    args.amount = .ok token
  counted : incrementPendingRequests s = .ok s₁
  queued : nextRequestId s₁ context ctx.shareMint .redeem remaining = .ok (s₂, id)
  state : s' = s₂.put token (s₂.requests.insert ctx.request (ctx.opened s args context id))

/-- **What the creation of a redeem request does.** -/
theorem createRedeemRequest_iff {ctx : CreateRedeemRequest} :
    createRedeemRequest s ctx args remaining = .ok s' ↔ ∃ context token s₁ s₂ id,
      ctx.Accepted s args remaining context ∧
        ctx.Opens s s' args remaining context token s₁ s₂ id := by
  simp only [createRedeemRequest, bind_eq_ok, VaultState.signer_eq_ok,
    VaultState.mintAccount_eq_ok, VaultState.initRequest_eq_ok, VaultState.tokenAccount_eq_ok,
    Vault.assertUnpausedAndInitialized_eq_ok, ensure_eq_ok, cpi_eq_ok, pure_eq_ok]
  constructor
  · rintro ⟨-, hsigner, y, hy, z, hz, -, hfresh, x, hx, -, hrunning, context, hcontext, _,
      hsupported, _, hunpaused, _, hmin, -, hpos, _, hlimits, token, hburned, s₁, h₁, ⟨s₂, id⟩, h₂,
      rfl⟩
    exact ⟨context, token, s₁, s₂, id, ⟨hsigner, ⟨y, hy⟩, ⟨z, hz⟩, hfresh, ⟨x, hx⟩, hrunning,
      hcontext, hsupported, hunpaused, hmin, hpos, hlimits⟩, ⟨hburned, h₁, h₂, rfl⟩⟩
  · rintro ⟨context, token, s₁, s₂, id, h, ⟨hburned, h₁, h₂, rfl⟩⟩
    obtain ⟨y, hy⟩ := h.assetMint
    obtain ⟨z, hz⟩ := h.shareMint
    obtain ⟨x, hx⟩ := h.source
    exact ⟨(), h.signer, y, hy, z, hz, (), h.fresh, x, hx, (), h.running, context, h.validated, (),
      h.supported, (), h.unpaused, (), h.minimum, (), h.positive, (), h.limits, token, hburned, s₁,
      h₁, (s₂, id), h₂, rfl⟩

end

/-! ### Claiming -/

section

variable {ctx : Claim}

/-- The mint a claimable request is paid in. -/
def Request.owedMint (r : Request) : Pubkey :=
  match r.requestType with
  | .deposit => r.shareMintAddress
  | .redeem => r.assetMintAddress

/-- The payment of a claim to which the accounts it needs are passed. -/
def Claim.payout (ctx : Claim) (r : Request) : Option (Payout Pubkey) :=
  match r.requestType with
  | .deposit => ctx.userShareAccount.bind fun user => ctx.shareTokenProgram.map fun program =>
      .mint program ctx.shareMint user r.amount
  | .redeem => ctx.pendingVault.bind fun v => ctx.userAssetAccount.map fun user =>
      .transfer ctx.assetTokenProgram v ctx.assetMint user r.amount

/-- What a claim checks before it pays `p` for the request `r`. -/
structure Claim.Accepted (ctx : Claim) (s : VaultState) (remaining : List AccountInfo)
    (r : Request) (p : Payout Pubkey) : Prop where
  signer : ctx.user ≠ s.key
  assetMint : ∃ x, s.token.mints ctx.assetMint = some x
  shareMint : ∃ y, s.token.mints ctx.shareMint = some y
  found : s.requests.lookup ctx.request = some r
  vault : r.vault = s.key
  owner : r.owner = ctx.owner
  running : s.vault.initialized = true ∧ s.vault.paused = false
  authorized : ctx.user = r.owner ∨ r.operator = some ctx.user
  claimable : r.requestState = .claimable
  asset : r.assetMintAddress = ctx.assetMint
  share : r.shareMintAddress = ctx.shareMint
  context : ∃ context, validateRequestShareMint s ctx.shareMint remaining = .ok context
  payout : ctx.payout r = some p
  paidTo : s.token.Holds p.dst r.owedMint r.owner
  escrow : r.requestType = .redeem → ∀ v, ctx.pendingVault = some v →
    s.token.Holds v ctx.assetMint s.key ∧
      checkPendingVault s ctx.assetMint ctx.vaultAsset v = .ok ()

/-- **What a claim does**: it makes its payment and closes the request. -/
theorem claim_iff : claim s ctx remaining = .ok s' ↔ ∃ r p token, ctx.Accepted s remaining r p ∧
    s.token.pay s.key p = .ok token ∧ s' = s.put token (s.requests.erase ctx.request) := by
  simp only [claim, bind_eq_ok, VaultState.signer_eq_ok, VaultState.mintAccount_eq_ok,
    VaultState.requestAccount_eq_ok, ensure_eq_ok, Vault.assertUnpausedAndInitialized_eq_ok]
  constructor
  · rintro ⟨-, hsigner, x, hx, y, hy, r, ⟨hr, hvault⟩, -, howner, -, hrunning, -, hauth, -,
      hclaimable, -, hasset, -, hshare, context, hcontext, h⟩
    -- the two sides differ in the accounts the payment goes through
    cases ht : r.requestType with
    | deposit =>
      simp only [ht, required, bind_eq_ok, okOr_eq_ok, cpi_eq_ok, pure_eq_ok] at h
      obtain ⟨user, huser, z, hz, program, hprogram, token, htoken, rfl⟩ := h
      refine ⟨r, .mint program ctx.shareMint user r.amount, token, ?_, htoken, rfl⟩
      refine ⟨hsigner, ⟨x, hx⟩, ⟨y, hy⟩, hr, hvault, howner, hrunning, hauth, hclaimable, hasset,
        hshare, ⟨context, hcontext⟩, ?_, ?_, fun h => ?_⟩
      · simp [Claim.payout, ht, huser, hprogram]
      · rw [Request.owedMint, ht]
        simp only [hshare]
        exact VaultState.holds_of_tokenAccount hz
      · rw [ht] at h
        cases h
    | redeem =>
      simp only [ht, required, bind_eq_ok, okOr_eq_ok, cpi_eq_ok, pure_eq_ok] at h
      obtain ⟨v, hv, w, hw, _, hcheck, user, huser, z, hz, token, htoken, rfl⟩ := h
      refine ⟨r, .transfer ctx.assetTokenProgram v ctx.assetMint user r.amount, token, ?_, htoken,
        rfl⟩
      refine ⟨hsigner, ⟨x, hx⟩, ⟨y, hy⟩, hr, hvault, howner, hrunning, hauth, hclaimable, hasset,
        hshare, ⟨context, hcontext⟩, ?_, ?_, fun _ v' hv' => ?_⟩
      · simp [Claim.payout, ht, huser, hv]
      · rw [Request.owedMint, ht]
        simp only [hasset]
        exact VaultState.holds_of_tokenAccount hz
      · obtain rfl := Option.some.inj (hv.symm.trans hv')
        exact ⟨VaultState.holds_of_tokenAccount hw, hcheck⟩
  · rintro ⟨r, p, token, h, hpay, rfl⟩
    obtain ⟨x, hx⟩ := h.assetMint
    obtain ⟨y, hy⟩ := h.shareMint
    obtain ⟨context, hcontext⟩ := h.context
    refine ⟨(), h.signer, x, hx, y, hy, r, ⟨h.found, h.vault⟩, (), h.owner, (), h.running, (),
      h.authorized, (), h.claimable, (), h.asset, (), h.share, context, hcontext, ?_⟩
    -- the payment names its accounts, so the checks on them can be run again
    have hp := h.payout
    have hto := h.paidTo
    cases ht : r.requestType with
    | deposit =>
      simp only [Claim.payout, ht, Option.bind_eq_some_iff, Option.map_eq_some_iff] at hp
      obtain ⟨user, huser, program, hprogram, rfl⟩ := hp
      simp only [Request.owedMint, ht, h.share] at hto
      obtain ⟨z, hz⟩ := hto
      simp only [required, bind_eq_ok, okOr_eq_ok, cpi_eq_ok, pure_eq_ok]
      exact ⟨user, huser, z, VaultState.tokenAccount_eq_ok.2 hz, program, hprogram, token, hpay,
        rfl⟩
    | redeem =>
      simp only [Claim.payout, ht, Option.bind_eq_some_iff, Option.map_eq_some_iff] at hp
      obtain ⟨v, hv, user, huser, rfl⟩ := hp
      simp only [Request.owedMint, ht, h.asset] at hto
      obtain ⟨z, hz⟩ := hto
      obtain ⟨⟨w, hw⟩, hcheck⟩ := h.escrow ht v hv
      simp only [required, bind_eq_ok, okOr_eq_ok, cpi_eq_ok, pure_eq_ok]
      exact ⟨v, hv, w, VaultState.tokenAccount_eq_ok.2 hw, (), hcheck, user, huser, z,
        VaultState.tokenAccount_eq_ok.2 hz, token, hpay, rfl⟩

namespace Claim.Accepted

/-- What a claim checks is the shape of the ledger and its own request. -/
theorem put (h : ctx.Accepted s remaining r p) {requests : Store Pubkey Request}
    (hshape : SameShape s.token token) (hfound : requests.lookup ctx.request = some r) :
    ctx.Accepted (s.put token requests) remaining r p where
  signer := h.signer
  assetMint := by
    obtain ⟨x, hx⟩ := h.assetMint
    obtain ⟨x', hx', -⟩ := hshape.mint hx
    exact ⟨x', hx'⟩
  shareMint := by
    obtain ⟨y, hy⟩ := h.shareMint
    obtain ⟨y', hy', -⟩ := hshape.mint hy
    exact ⟨y', hy'⟩
  found := hfound
  vault := h.vault
  owner := h.owner
  running := h.running
  authorized := h.authorized
  claimable := h.claimable
  asset := h.asset
  share := h.share
  context := h.context
  payout := h.payout
  paidTo := hshape.holds h.paidTo
  escrow ht v hv := ⟨hshape.holds (h.escrow ht v hv).1, (h.escrow ht v hv).2⟩

/-- An approved deposit is paid in shares. -/
theorem deposit (h : ctx.Accepted s remaining r p) (ht : r.requestType = .deposit) :
    ∃ program user, p = .mint program r.shareMintAddress user r.amount ∧
      s.token.Holds user r.shareMintAddress r.owner := by
  have hp := h.payout
  have hto := h.paidTo
  simp only [Claim.payout, ht, Option.bind_eq_some_iff, Option.map_eq_some_iff] at hp
  obtain ⟨user, -, program, -, rfl⟩ := hp
  rw [Request.owedMint, ht] at hto
  exact ⟨program, user, by rw [h.share], hto⟩

/-- An approved redemption is paid in assets, out of their escrow. -/
theorem redeem (h : ctx.Accepted s remaining r p) (ht : r.requestType = .redeem) :
    ∃ program v user, p = .transfer program v r.assetMintAddress user r.amount ∧
      checkPendingVault s r.assetMintAddress ctx.vaultAsset v = .ok () ∧
      s.token.Holds user r.assetMintAddress r.owner := by
  have hp := h.payout
  have hto := h.paidTo
  simp only [Claim.payout, ht, Option.bind_eq_some_iff, Option.map_eq_some_iff] at hp
  obtain ⟨v, hv, user, -, rfl⟩ := hp
  rw [Request.owedMint, ht] at hto
  refine ⟨_, v, user, by rw [h.asset], ?_, hto⟩
  rw [h.asset]
  exact (h.escrow ht v hv).2

/-- The payment goes to the owner. -/
theorem outward (h : ctx.Accepted s remaining r p) (ho : r.owner ≠ s.key) :
    p.Outward s.token s.key :=
  ⟨_, _, h.paidTo, ho⟩

end Claim.Accepted

end

/-! ### Returning -/

section

variable {user : Pubkey} {ctx : RefundAccounts} {context : RequestShareMintContext}

/-- What refunding a deposit checks and does: the escrow `pending` pays the owner's account `a` in
`token`, and `s₁` no longer counts the amount. -/
structure ReturnsAssets (s s' : VaultState) (ctx : RefundAccounts) (r : Request)
    (pending a : Pubkey) (program : TokenProgram) (token : Ledger Pubkey) (s₁ : VaultState) :
    Prop where
  pendingVault : ctx.assetPendingVault = some pending
  escrow : s.token.Holds pending ctx.assetMint s.key
  named : checkPendingVault s ctx.assetMint ctx.vaultAsset pending = .ok ()
  account : ctx.userTokenAccount = some a
  holds : s.token.Holds a ctx.assetMint r.owner
  tokenProgram : ctx.assetTokenProgram = some program
  paid : s.token.transferChecked program pending ctx.assetMint a s.key r.amount = .ok token
  released : subPendingDeposit s ctx.assetMint ctx.vaultAsset r.amount = .ok s₁
  counted : decrementPendingRequests (s₁.put token s₁.requests) = .ok s'

theorem refund_deposit_iff (ht : r.requestType = .deposit) :
    refund s ctx r = .ok s' ↔ ∃ pending a program token s₁,
      ReturnsAssets s s' ctx r pending a program token s₁ := by
  simp only [refund, ht, required, bind_eq_ok, okOr_eq_ok, VaultState.tokenAccount_eq_ok,
    cpi_eq_ok]
  constructor
  · rintro ⟨v, hv, x, hx, _, hnamed, a, ha, y, hy, program, hprogram, token, hpaid, s₁, h₁, h₂⟩
    exact ⟨v, a, program, token, s₁, hv, ⟨x, hx⟩, hnamed, ha, ⟨y, hy⟩, hprogram, hpaid, h₁, h₂⟩
  · rintro ⟨v, a, program, token, s₁, h⟩
    obtain ⟨x, hx⟩ := h.escrow
    obtain ⟨y, hy⟩ := h.holds
    exact ⟨v, h.pendingVault, x, hx, (), h.named, a, h.account, y, hy, program, h.tokenProgram,
      token, h.paid, s₁, h.released, h.counted⟩

/-- What refunding a redemption checks and does: the shares are minted back to the owner's account
`a` in `token`. -/
structure ReturnsShares (s s' : VaultState) (ctx : RefundAccounts) (r : Request) (a : Pubkey)
    (program : TokenProgram) (token : Ledger Pubkey) : Prop where
  account : ctx.userShareAccount = some a
  holds : s.token.Holds a ctx.shareMint r.owner
  tokenProgram : ctx.shareTokenProgram = some program
  minted : s.token.mintTo program ctx.shareMint a s.key r.amount = .ok token
  counted : decrementPendingRequests (s.put token s.requests) = .ok s'

theorem refund_redeem_iff (ht : r.requestType = .redeem) :
    refund s ctx r = .ok s' ↔ ∃ a program token, ReturnsShares s s' ctx r a program token := by
  simp only [refund, ht, required, bind_eq_ok, okOr_eq_ok, VaultState.tokenAccount_eq_ok,
    cpi_eq_ok]
  constructor
  · rintro ⟨a, ha, y, hy, program, hprogram, token, hminted, h⟩
    exact ⟨a, program, token, ha, ⟨y, hy⟩, hprogram, hminted, h⟩
  · rintro ⟨a, program, token, h⟩
    obtain ⟨y, hy⟩ := h.holds
    exact ⟨a, h.account, y, hy, program, h.tokenProgram, token, h.minted, h.counted⟩

/-- What every instruction that returns a pending request finds. -/
structure Returnable (s : VaultState) (ctx : RefundAccounts) (remaining : List AccountInfo)
    (r : Request) (context : RequestShareMintContext) : Prop where
  found : s.requests.lookup ctx.request = some r
  vault : r.vault = s.key
  pending : r.requestState = .pending
  mints : checkRequestMints s ctx.assetMint ctx.shareMint r remaining = .ok context

/-- The cancellation of an unqueued request: `s₁` has returned it, and its account is closed. -/
structure Canceling (s s' : VaultState) (user : Pubkey) (ctx : RefundAccounts)
    (remaining : List AccountInfo) (r : Request) (context : RequestShareMintContext)
    (s₁ : VaultState) : Prop extends Returnable s ctx remaining r context where
  signer : user ≠ s.key
  owner : r.owner = user
  running : s.vault.initialized = true ∧ s.vault.paused = false
  unqueued : validateQueueExtensionConstraints r = .ok ()
  refunded : refund s ctx r = .ok s₁
  state : s' = s₁.put s₁.token (s₁.requests.erase ctx.request)

theorem cancelRequest_iff : cancelRequest s user ctx remaining = .ok s' ↔
    ∃ r context s₁, Canceling s s' user ctx remaining r context s₁ := by
  simp only [cancelRequest, bind_eq_ok, VaultState.signer_eq_ok, VaultState.requestAccount_eq_ok,
    Vault.assertUnpausedAndInitialized_eq_ok, ensure_eq_ok, pure_eq_ok]
  constructor
  · rintro ⟨-, hsigner, r, ⟨hr, hvault⟩, -, howner, -, hrunning, -, hpending, context, hmints, _,
      hunqueued, s₁, h₁, rfl⟩
    exact ⟨r, context, s₁, ⟨hr, hvault, hpending, hmints⟩, hsigner, howner, hrunning, hunqueued,
      h₁, rfl⟩
  · rintro ⟨r, context, s₁, h⟩
    obtain rfl := h.state
    exact ⟨(), h.signer, r, ⟨h.found, h.vault⟩, (), h.owner, (), h.running, (), h.pending, context,
      h.mints, (), h.unqueued, s₁, h.refunded, rfl⟩

/-- A rejection: the queue advances to `s₁`, `s₂` has returned the request, and its account is
closed. -/
structure Rejecting (s s' : VaultState) (authority user : Pubkey) (ctx : RefundAccounts)
    (args : ApproveRequestArgs) (remaining : List AccountInfo) (r : Request)
    (context : RequestShareMintContext) (s₁ s₂ : VaultState) : Prop
    extends Returnable s ctx remaining r context where
  signer : authority ≠ s.key
  owner : r.owner = user
  authorized : authority = s.vault.curator ∨ authority = s.vault.fulfiller
  matching : args.Matches r
  queue : advanceQueue s context ctx.shareMint r remaining = .ok s₁
  refunded : refund s₁ ctx r = .ok s₂
  state : s' = s₂.put s₂.token (s₂.requests.erase ctx.request)

theorem rejectRequest_iff {authority : Pubkey} {args : ApproveRequestArgs} :
    rejectRequest s authority user ctx args remaining = .ok s' ↔ ∃ r context s₁ s₂,
      Rejecting s s' authority user ctx args remaining r context s₁ s₂ := by
  simp only [rejectRequest, bind_eq_ok, VaultState.signer_eq_ok, VaultState.requestAccount_eq_ok,
    Vault.assertCuratorOrFulfiller, ensure_eq_ok, pure_eq_ok]
  constructor
  · rintro ⟨-, hsigner, r, ⟨hr, hvault⟩, -, howner, -, hauth, -, hpending, -, hmatch, context,
      hmints, s₁, h₁, s₂, h₂, rfl⟩
    exact ⟨r, context, s₁, s₂, ⟨hr, hvault, hpending, hmints⟩, hsigner, howner, hauth, hmatch, h₁,
      h₂, rfl⟩
  · rintro ⟨r, context, s₁, s₂, h⟩
    obtain rfl := h.state
    exact ⟨(), h.signer, r, ⟨h.found, h.vault⟩, (), h.owner, (), h.authorized, (), h.pending, (),
      h.matching, context, h.mints, s₁, h.queue, s₂, h.refunded, rfl⟩

/-- The cancellation of a queued request of type `t`: `s₁` has returned it, and its account stays
as a canceled tombstone. -/
structure Parking (s s' : VaultState) (user : Pubkey) (ctx : RefundAccounts) (t : RequestType)
    (remaining : List AccountInfo) (r : Request) (context : RequestShareMintContext)
    (s₁ : VaultState) : Prop extends Returnable s ctx remaining r context where
  signer : user ≠ s.key
  owner : r.owner = user
  type : r.requestType = t
  running : s.vault.initialized = true ∧ s.vault.paused = false
  queued : (r.queueId t).isSome
  refunded : refund s ctx r = .ok s₁
  state : s' = s₁.put s₁.token
    (s₁.requests.insert ctx.request { r with requestState := .canceled })

/-- A parked request had its place in the queue of its type. -/
theorem Parking.queueId {t : RequestType} {s₁ : VaultState}
    (h : Parking s s' user ctx t remaining r context s₁) : (r.queueId r.requestType).isSome := by
  rw [h.type]
  exact h.queued

/-- The accounts a queued deposit is refunded through. -/
def CancelQueuedDepositRequest.refundAccounts (ctx : CancelQueuedDepositRequest) :
    RefundAccounts where
  assetMint := ctx.assetMint
  shareMint := ctx.shareMint
  vaultAsset := ctx.vaultAsset
  request := ctx.request
  userTokenAccount := some ctx.userTokenAccount
  assetPendingVault := some ctx.assetPendingVault
  userShareAccount := none
  shareTokenProgram := none
  assetTokenProgram := some ctx.assetTokenProgram

theorem cancelQueuedDepositRequest_iff {ctx : CancelQueuedDepositRequest} :
    cancelQueuedDepositRequest s ctx remaining = .ok s' ↔ ∃ r context s₁,
      Parking s s' ctx.user ctx.refundAccounts .deposit remaining r context s₁ := by
  simp only [cancelQueuedDepositRequest, bind_eq_ok, VaultState.signer_eq_ok,
    VaultState.requestAccount_eq_ok, Vault.assertUnpausedAndInitialized_eq_ok, ensure_eq_ok,
    pure_eq_ok]
  constructor
  · rintro ⟨-, hsigner, r, ⟨hr, hvault⟩, -, howner, -, htype, -, hrunning, -, hpending, -, hqueued,
      context, hmints, s₁, h₁, rfl⟩
    exact ⟨r, context, s₁, ⟨hr, hvault, hpending, hmints⟩, hsigner, howner, htype, hrunning,
      hqueued, h₁, rfl⟩
  · rintro ⟨r, context, s₁, h⟩
    obtain rfl := h.state
    exact ⟨(), h.signer, r, ⟨h.found, h.vault⟩, (), h.owner, (), h.type, (), h.running, (),
      h.pending, (), h.queued, context, h.mints, s₁, h.refunded, rfl⟩

/-- The accounts the shares of a queued redemption are minted back through. -/
def CancelQueuedRedemptionRequest.refundAccounts (ctx : CancelQueuedRedemptionRequest) :
    RefundAccounts where
  assetMint := ctx.assetMint
  shareMint := ctx.shareMint
  vaultAsset := none
  request := ctx.request
  userTokenAccount := none
  assetPendingVault := none
  userShareAccount := some ctx.userShareAccount
  shareTokenProgram := some ctx.shareTokenProgram
  assetTokenProgram := none

/-- Unlike its sibling, it asks for the primary asset of the vault. -/
theorem cancelQueuedRedemptionRequest_iff {ctx : CancelQueuedRedemptionRequest} :
    cancelQueuedRedemptionRequest s ctx remaining = .ok s' ↔
      s.vault.assetMint = ctx.assetMint ∧ ∃ r context s₁,
        Parking s s' ctx.user ctx.refundAccounts .redeem remaining r context s₁ := by
  simp only [cancelQueuedRedemptionRequest, bind_eq_ok, VaultState.signer_eq_ok,
    VaultState.requestAccount_eq_ok, Vault.assertUnpausedAndInitialized_eq_ok, ensure_eq_ok,
    pure_eq_ok]
  constructor
  · rintro ⟨-, hsigner, -, hprimary, r, ⟨hr, hvault⟩, -, howner, -, htype, -, hrunning, -, hpending,
      -, hqueued, context, hmints, s₁, h₁, rfl⟩
    exact ⟨hprimary, r, context, s₁, ⟨hr, hvault, hpending, hmints⟩, hsigner, howner, htype,
      hrunning, hqueued, h₁, rfl⟩
  · rintro ⟨hprimary, r, context, s₁, h⟩
    obtain rfl := h.state
    exact ⟨(), h.signer, (), hprimary, r, ⟨h.found, h.vault⟩, (), h.owner, (), h.type, (),
      h.running, (), h.pending, (), h.queued, context, h.mints, s₁, h.refunded, rfl⟩

/-- The queue passes a canceled request: it advances to `s₁`, and the account is closed. -/
structure Skipping (s s' : VaultState) (request owner : Pubkey) (remaining : List AccountInfo)
    (r : Request) (context : RequestShareMintContext) (s₁ : VaultState) : Prop where
  found : s.requests.lookup request = some r
  vault : r.vault = s.key
  canceled : r.requestState = .canceled
  owner : r.owner = owner
  validated : validateRequestShareMint s r.shareMintAddress remaining = .ok context
  queue : advanceQueue s context r.shareMintAddress r remaining = .ok s₁
  state : s' = s₁.put s₁.token (s₁.requests.erase request)

theorem skipCanceledQueueRequest_iff {request owner : Pubkey} :
    skipCanceledQueueRequest s request owner remaining = .ok s' ↔
      ∃ r context s₁, Skipping s s' request owner remaining r context s₁ := by
  simp only [skipCanceledQueueRequest, bind_eq_ok, VaultState.requestAccount_eq_ok, ensure_eq_ok,
    require_eq_ok, pure_eq_ok]
  constructor
  · rintro ⟨r, ⟨hr, hvault⟩, -, hcanceled, -, howner, context, hcontext, s₁, h₁, rfl⟩
    exact ⟨r, context, s₁, hr, hvault, hcanceled, howner, hcontext, h₁, rfl⟩
  · rintro ⟨r, context, s₁, h⟩
    obtain rfl := h.state
    exact ⟨r, ⟨h.found, h.vault⟩, (), h.canceled, (), h.owner, context, h.validated, s₁, h.queue,
      rfl⟩

theorem setOperator_iff {operator request : Pubkey} :
    setOperator s user operator request = .ok s' ↔ user ≠ s.key ∧ operator ≠ s.key ∧
      ∃ r, s.requests.lookup request = some r ∧ user = r.owner ∧
        s' = s.put s.token (s.requests.insert request { r with operator := some operator }) := by
  simp only [setOperator, bind_eq_ok, VaultState.signer_eq_ok, okOr_eq_ok, ensure_eq_ok,
    pure_eq_ok]
  constructor
  · rintro ⟨-, huser, -, hoperator, r, hr, -, howner, rfl⟩
    exact ⟨huser, hoperator, r, hr, howner, rfl⟩
  · rintro ⟨huser, hoperator, r, hr, howner, rfl⟩
    exact ⟨(), huser, (), hoperator, r, hr, (), howner, rfl⟩

end

/-! ### Settlements -/

/-- What settling a deposit checks and does: of the amount `net` buys the shares, the cached supply
moves in `s₁`, and the fee and the net amount leave the escrow in `token₁` and `token`. -/
structure ApproveRequest.SettlesDeposit (ctx : ApproveRequest) (s : VaultState)
    (context : RequestShareMintContext) (r : Request) (nav : ℕ) (share : Mint Pubkey)
    (remaining : List AccountInfo) (fee net shares : ℕ) (rest : List AccountInfo)
    (s₁ : VaultState) (token₁ token : Ledger Pubkey) : Prop where
  parts : getDepositFeeAndNet s.extensions r.amount = .ok (fee, net)
  net_pos : 0 < net
  priced : calculateShares nav share.decimals net = .ok shares
  shares_pos : 0 < shares
  floor : maybeEnforceJuniorRatioFloor s ctx.shareMint .deposit shares context.trancheInfo
    (remaining.drop context.consumedAccounts) = .ok rest
  cached : updateTrancheSupplyCache s ctx.shareMint .deposit shares share.supply
    context.trancheInfo remaining.head? = .ok s₁
  feePaid : paySettlementFee s₁ ctx.assetTokenProgram ctx.pendingVault ctx.assetMint fee rest =
    .ok token₁
  paid : token₁.transferChecked ctx.assetTokenProgram ctx.pendingVault ctx.assetMint
    ctx.vaultTokenAccount s₁.key net = .ok token

theorem settleDeposit_iff {ctx : ApproveRequest} {context : RequestShareMintContext} {nav : ℕ}
    {share : Mint Pubkey} {x : Settlement} :
    settleDeposit s ctx context r nav share remaining = .ok x ↔
      ∃ fee net shares rest s₁ token₁ token,
        ctx.SettlesDeposit s context r nav share remaining fee net shares rest s₁ token₁ token ∧
          x = ⟨{ s₁ with token := token }, shares, net⟩ := by
  simp only [settleDeposit, bind_eq_ok, ensure_eq_ok, cpi_eq_ok, pure_eq_ok]
  constructor
  · rintro ⟨⟨fee, net⟩, hparts, -, hnet, shares, hshares, -, hpos, rest, hfloor, s₁, hcache, token₁,
      hfee, token, hpaid, rfl⟩
    exact ⟨fee, net, shares, rest, s₁, token₁, token,
      ⟨hparts, hnet, hshares, hpos, hfloor, hcache, hfee, hpaid⟩, rfl⟩
  · rintro ⟨fee, net, shares, rest, s₁, token₁, token, h, rfl⟩
    exact ⟨(fee, net), h.parts, (), h.net_pos, shares, h.priced, (), h.shares_pos, rest, h.floor,
      s₁, h.cached, token₁, h.feePaid, token, h.paid, rfl⟩

/-- What settling a redemption checks and does: the shares are worth `gross`, the cached supply
moves in `s₁`, `v` is the vault with the redemption charged, and the fee and the net amount leave
the reserve in `token₁` and `token`. -/
structure ApproveRequest.SettlesRedeem (ctx : ApproveRequest) (s : VaultState)
    (context : RequestShareMintContext) (r : Request) (nav : ℕ) (share : Mint Pubkey)
    (remaining : List AccountInfo) (gross fee net : ℕ) (rest : List AccountInfo)
    (s₁ : VaultState) (v : Vault) (token₁ token : Ledger Pubkey) : Prop where
  valued : calculateAssets nav share.decimals r.amount = .ok gross
  floor : maybeEnforceJuniorRatioFloor s ctx.shareMint .redeem r.amount context.trancheInfo
    (remaining.drop context.consumedAccounts) = .ok rest
  cached : updateTrancheSupplyCache s ctx.shareMint .redeem r.amount share.supply
    context.trancheInfo remaining.head? = .ok s₁
  parts : getWithdrawalFeeAndNet s₁.extensions gross = .ok (fee, net)
  charged : s₁.vault.consumeRedemptionRollingLimit gross s₁.clock.slot = .ok v
  feePaid : paySettlementFee { s₁ with vault := v } ctx.assetTokenProgram ctx.vaultTokenAccount
    ctx.assetMint fee rest = .ok token₁
  paid : token₁.transferChecked ctx.assetTokenProgram ctx.vaultTokenAccount ctx.assetMint
    ctx.pendingVault s₁.key net = .ok token

theorem settleRedeem_iff {ctx : ApproveRequest} {context : RequestShareMintContext} {nav : ℕ}
    {share : Mint Pubkey} {x : Settlement} :
    settleRedeem s ctx context r nav share remaining = .ok x ↔
      ∃ gross fee net rest s₁ v token₁ token,
        ctx.SettlesRedeem s context r nav share remaining gross fee net rest s₁ v token₁ token ∧
          x = ⟨{ s₁ with vault := v, token := token }, net, gross⟩ := by
  simp only [settleRedeem, bind_eq_ok, cpi_eq_ok, pure_eq_ok]
  constructor
  · rintro ⟨gross, hgross, rest, hfloor, s₁, hcache, ⟨fee, net⟩, hparts, v, hlimit, token₁, hfee,
      token, hpaid, rfl⟩
    exact ⟨gross, fee, net, rest, s₁, v, token₁, token,
      ⟨hgross, hfloor, hcache, hparts, hlimit, hfee, hpaid⟩, rfl⟩
  · rintro ⟨gross, fee, net, rest, s₁, v, token₁, token, h, rfl⟩
    exact ⟨gross, h.valued, rest, h.floor, s₁, h.cached, (fee, net), h.parts, v, h.charged, token₁,
      h.feePaid, token, h.paid, rfl⟩

/-! ### Approving -/

/-- What an approval checks of the accounts and arguments it is called with. -/
structure ApproveRequest.Accepted (ctx : ApproveRequest) (s : VaultState)
    (args : ApproveRequestArgs) (remaining : List AccountInfo) (r : Request) (share : Mint Pubkey)
    (context : RequestShareMintContext) : Prop where
  signer : ctx.authority ≠ s.key
  assetMint : ∃ y, s.token.mints ctx.assetMint = some y ∧ y.program = ctx.assetTokenProgram ∧
    y.epochFeeBps = 0
  shareMint : s.token.mints ctx.shareMint = some share
  found : s.requests.lookup ctx.request = some r
  vault : r.vault = s.key
  reserve : s.token.Holds ctx.vaultTokenAccount ctx.assetMint s.key
  pendingVault : s.token.Holds ctx.pendingVault ctx.assetMint s.key
  running : s.vault.initialized = true ∧ s.vault.paused = false
  authorized : ctx.authority = s.vault.curator ∨ ctx.authority = s.vault.fulfiller
  pending : r.requestState = .pending
  matching : args.Matches r
  asset : r.assetMintAddress = ctx.assetMint
  share : r.shareMintAddress = ctx.shareMint
  context : validateRequestShareMint s ctx.shareMint remaining = .ok context
  accounts : checkSettlementAccounts s ctx = .ok ()

theorem approvalChecks_iff {ctx : ApproveRequest} {args : ApproveRequestArgs}
    {share : Mint Pubkey} {context : RequestShareMintContext} :
    approvalChecks s ctx args remaining = .ok (r, share, context) ↔
      ctx.Accepted s args remaining r share context := by
  simp only [approvalChecks, bind_eq_ok, VaultState.signer_eq_ok, VaultState.mintAccount_eq_ok,
    VaultState.requestAccount_eq_ok, VaultState.tokenAccount_eq_ok, VaultState.tokenProgram,
    Vault.assertCuratorOrFulfiller, Vault.assertUnpausedAndInitialized_eq_ok,
    validateAssetMintExtensions, require_eq_ok, ensure_eq_ok, pure_eq_ok, Prod.mk.injEq]
  constructor
  · rintro ⟨-, hsigner, y, hy, share', hshare, r', ⟨hr, hvault⟩, x, hx, z, hz, -, hprogram, -,
      hrunning, -, hauth, -, hfee, -, hpending, -, hmatch, -, hasset, -, hmint, context', hcontext,
      _, haccounts, rfl, rfl, rfl⟩
    exact ⟨hsigner, ⟨y, hy, hprogram, hfee⟩, hshare, hr, hvault, ⟨x, hx⟩, ⟨z, hz⟩, hrunning, hauth,
      hpending, hmatch, hasset, hmint, hcontext, haccounts⟩
  · intro h
    obtain ⟨y, hy, hprogram, hfee⟩ := h.assetMint
    obtain ⟨x, hx⟩ := h.reserve
    obtain ⟨z, hz⟩ := h.pendingVault
    exact ⟨(), h.signer, y, hy, share, h.shareMint, r, ⟨h.found, h.vault⟩, x, hx, z, hz, (),
      hprogram, (), h.running, (), h.authorized, (), hfee, (), h.pending, (), h.matching, (),
      h.asset, (), h.share, context, h.context, (), h.accounts, rfl, rfl, rfl⟩

/-- What an approval does with the request `r` once it is accepted: the queue advances to `s₁`,
the settlement `x` moves the tokens, and `v` is the vault with its total. -/
structure ApproveRequest.Settles (ctx : ApproveRequest) (s s' : VaultState)
    (remaining : List AccountInfo) (r : Request) (share : Mint Pubkey)
    (context : RequestShareMintContext) (s₁ : VaultState) (x : Settlement) (v : Vault) : Prop where
  navSet : 0 < s.vault.nav
  fresh : s.vault.assertFreshNavForRequest r.navUpdateVersion = .ok ()
  notStale : s.vault.assertNavNotStale s.clock.slot = .ok ()
  queue : advanceQueue s context ctx.shareMint r remaining = .ok s₁
  deposit : r.requestType = .deposit →
    settleDeposit s₁ ctx context r (settlementNav context.trancheNav s.vault.nav) share remaining =
      .ok x ∧ creditDeposit x.state.vault x.balanceDelta r.amount = .ok v
  redeem : r.requestType = .redeem →
    settleRedeem s₁ ctx context r (settlementNav context.trancheNav s.vault.nav) share remaining =
      .ok x ∧ debitRedeem x.state.vault x.balanceDelta = .ok v
  state : decrementPendingRequests { x.state with
    vault := v
    requests := x.state.requests.insert ctx.request
      { r with
        amount := x.claimableAmount
        price := settlementNav context.trancheNav s.vault.nav
        requestState := .claimable } } = .ok s'

/-- The settlement, by the type of the request. -/
theorem ApproveRequest.Settles.settlement {ctx : ApproveRequest} {share : Mint Pubkey}
    {context : RequestShareMintContext} {s₁ : VaultState} {x : Settlement} {v : Vault}
    (h : ctx.Settles s s' remaining r share context s₁ x v) :
    (match r.requestType with
      | .deposit => settleDeposit s₁ ctx context r
          (settlementNav context.trancheNav s.vault.nav) share remaining
      | .redeem => settleRedeem s₁ ctx context r
          (settlementNav context.trancheNav s.vault.nav) share remaining) = .ok x := by
  cases ht : r.requestType with
  | deposit => exact (h.deposit ht).1
  | redeem => exact (h.redeem ht).1

/-- What it books in the vault's total, by the type of the request. -/
theorem ApproveRequest.Settles.booking {ctx : ApproveRequest} {share : Mint Pubkey}
    {context : RequestShareMintContext} {s₁ : VaultState} {x : Settlement} {v : Vault}
    (h : ctx.Settles s s' remaining r share context s₁ x v) :
    (match r.requestType with
      | .deposit => creditDeposit x.state.vault x.balanceDelta r.amount
      | .redeem => debitRedeem x.state.vault x.balanceDelta) = .ok v := by
  cases ht : r.requestType with
  | deposit => exact (h.deposit ht).2
  | redeem => exact (h.redeem ht).2

/-- **What an approval does.** -/
theorem approveRequest_iff {ctx : ApproveRequest} {args : ApproveRequestArgs} :
    approveRequest s ctx args remaining = .ok s' ↔ ∃ r share context s₁ x v,
      ctx.Accepted s args remaining r share context ∧
        ctx.Settles s s' remaining r share context s₁ x v := by
  simp only [approveRequest, bind_eq_ok, ensure_eq_ok]
  constructor
  · rintro ⟨⟨r, share, context⟩, hchecks, -, hnav, _, hfresh, _, hstale, s₁, hqueue, x, hsettle, v,
      hv, hstate⟩
    refine ⟨r, share, context, s₁, x, v, approvalChecks_iff.1 hchecks, hnav, hfresh, hstale, hqueue,
      fun ht => ?_, fun ht => ?_, hstate⟩
    · simp only [ht] at hsettle hv
      exact ⟨hsettle, hv⟩
    · simp only [ht] at hsettle hv
      exact ⟨hsettle, hv⟩
  · rintro ⟨r, share, context, s₁, x, v, haccepted, h⟩
    exact ⟨(r, share, context), approvalChecks_iff.2 haccepted, (), h.navSet, (), h.fresh, (),
      h.notStale, s₁, h.queue, x, h.settlement, v, h.booking, h.state⟩

/-! ### Settling at once -/

section

variable {assetMint shareMint vaultTokenAccount userAssetAccount userShareAccount : Pubkey}
variable {user : Pubkey} {assetTokenProgram shareTokenProgram : TokenProgram}
variable {asset share : Mint Pubkey} {inst : InstantSettlement}

/-- What both instant instructions check first. -/
structure InstantAccepted (s : VaultState) (user assetMint shareMint vaultTokenAccount
    userAssetAccount userShareAccount : Pubkey) (assetTokenProgram shareTokenProgram : TokenProgram)
    (asset share : Mint Pubkey) (inst : InstantSettlement) : Prop where
  signer : user ≠ s.key
  assetExists : s.token.mints assetMint = some asset
  shareExists : s.token.mints shareMint = some share
  primary : s.vault.assetMint = assetMint
  ownShare : s.vault.shareMint = shareMint
  reserveHeld : s.token.Holds vaultTokenAccount assetMint s.key
  reserve : s.vault.vaultTokenAccount = vaultTokenAccount
  userAsset : s.token.Holds userAssetAccount assetMint user
  userShare : s.token.Holds userShareAccount shareMint user
  assetProgram : asset.program = assetTokenProgram
  shareProgram : share.program = shareTokenProgram
  running : s.vault.initialized = true ∧ s.vault.paused = false
  plain : s.vault.trancheConfig = none
  enabled : s.extensions.assertInstantSettlementEnabled = .ok inst
  guarded : assertInstantSettlementSafetyGuards s.vault.instantRedemptionFeeBps
    s.vault.maxNavStalenessSlots = .ok ()

theorem instantChecks_iff :
    instantChecks s user assetMint shareMint vaultTokenAccount userAssetAccount userShareAccount
      assetTokenProgram shareTokenProgram = .ok (asset, share, inst) ↔
      InstantAccepted s user assetMint shareMint vaultTokenAccount userAssetAccount
        userShareAccount assetTokenProgram shareTokenProgram asset share inst := by
  simp only [instantChecks, bind_eq_ok, VaultState.signer_eq_ok, VaultState.mintAccount_eq_ok,
    VaultState.tokenAccount_eq_ok, VaultState.tokenProgram,
    Vault.assertUnpausedAndInitialized_eq_ok, require_eq_ok, ensure_eq_ok, pure_eq_ok,
    Prod.mk.injEq]
  constructor
  · rintro ⟨-, hsigner, asset', hasset, share', hshare, -, hprimary, -, hown, x, hx, -, hreserve, y,
      hy, z, hz, -, hassetProgram, -, hshareProgram, -, hrunning, -, hplain, inst', henabled, _,
      hguarded, rfl, rfl, rfl⟩
    exact ⟨hsigner, hasset, hshare, hprimary, hown, ⟨x, hx⟩, hreserve, ⟨y, hy⟩, ⟨z, hz⟩,
      hassetProgram, hshareProgram, hrunning, hplain, henabled, hguarded⟩
  · intro h
    obtain ⟨x, hx⟩ := h.reserveHeld
    obtain ⟨y, hy⟩ := h.userAsset
    obtain ⟨z, hz⟩ := h.userShare
    exact ⟨(), h.signer, asset, h.assetExists, share, h.shareExists, (), h.primary, (), h.ownShare,
      x, hx, (), h.reserve, y, hy, z, hz, (), h.assetProgram, (), h.shareProgram, (), h.running,
      (), h.plain, inst, h.enabled, (), h.guarded, rfl, rfl, rfl⟩

/-- The users' buckets once the deposit is charged to the one of its user. -/
def InstantDeposit.charge (ctx : InstantDeposit) (s : VaultState) (inst : InstantSettlement)
    (amount : ℕ) : Result (Pubkey → Option InstantSettlementUser) :=
  if inst.maxUserDepositAmount ≠ 0 then do
    let u ← loadOrInitInstantUser s ctx.instantUser ctx.user
    let u ← u.consumeDepositLimit amount s.clock.slot inst.maxUserDepositAmount
      s.vault.rollingLimitWindowSlots
    pure (update s.instantUsers ctx.user (some u))
  else
    pure s.instantUsers

/-- What an instant deposit checks and does: `users` are the buckets after it, `fee` and `net` the
parts of the amount, and the fee, the net amount and the shares move in `token₁`, `token₂` and
`token`. -/
structure InstantDeposit.Settles (ctx : InstantDeposit) (s s' : VaultState) (amount : ℕ)
    (remaining : List AccountInfo) (asset share : Mint Pubkey) (inst : InstantSettlement)
    (users : Pubkey → Option InstantSettlementUser) (fee net shares : ℕ)
    (token₁ token₂ token : Ledger Pubkey) : Prop where
  accepted : InstantAccepted s ctx.user ctx.assetMint ctx.shareMint ctx.vaultTokenAccount
    ctx.userAssetAccount ctx.userShareAccount ctx.assetTokenProgram ctx.shareTokenProgram asset
    share inst
  within : inst.assertDepositAmount amount = .ok ()
  free : asset.epochFeeBps = 0
  navSet : 0 < s.vault.nav
  notStale : s.vault.assertNavNotStale s.clock.slot = .ok ()
  charged : ctx.charge s inst amount = .ok users
  cap : s.vault.assertDepositCapAllows amount = .ok ()
  parts : getDepositFeeAndNet s.extensions amount = .ok (fee, net)
  net_pos : 0 < net
  priced : calculateShares s.vault.nav share.decimals net = .ok shares
  shares_pos : 0 < shares
  feePaid : payInstantFee s s.token ctx.assetTokenProgram ctx.userAssetAccount ctx.assetMint
    ctx.user fee ctx.feeRecipientTokenAccount ctx.protocolFeeRecipientTokenAccount remaining =
      .ok token₁
  paid : token₁.transferChecked ctx.assetTokenProgram ctx.userAssetAccount ctx.assetMint
    ctx.vaultTokenAccount ctx.user net = .ok token₂
  minted : token₂.mintTo ctx.shareTokenProgram ctx.shareMint ctx.userShareAccount s.key shares =
    .ok token
  total : s.vault.totalAssetBalance + net < u64
  state : s' = { s with
    instantUsers := users
    token := token
    vault := { s.vault with totalAssetBalance := s.vault.totalAssetBalance + net } }

/-- **What an instant deposit does.** -/
theorem instantDeposit_iff {ctx : InstantDeposit} {amount : ℕ} :
    instantDeposit s ctx amount remaining = .ok s' ↔
      ∃ asset share inst users fee net shares token₁ token₂ token,
        ctx.Settles s s' amount remaining asset share inst users fee net shares token₁ token₂
          token := by
  simp only [instantDeposit, validateAssetMintExtensions, bind_eq_ok, ensure_eq_ok, cpi_eq_ok,
    add_eq_ok, pure_eq_ok]
  constructor
  · rintro ⟨⟨asset, share, inst⟩, hchecks, _, hamount, -, hfree, -, hnav, _, hstale, users, hcharge,
      _, hcap, ⟨fee, net⟩, hparts, -, hnet, shares, hshares, -, hpos, token₁, h₁, token₂, h₂, token,
      h₃, _, ⟨htotal, rfl⟩, rfl⟩
    exact ⟨asset, share, inst, users, fee, net, shares, token₁, token₂, token,
      instantChecks_iff.1 hchecks, hamount, hfree, hnav, hstale, hcharge, hcap, hparts, hnet,
      hshares, hpos, h₁, h₂, h₃, htotal, rfl⟩
  · rintro ⟨asset, share, inst, users, fee, net, shares, token₁, token₂, token, h⟩
    obtain rfl := h.state
    exact ⟨(asset, share, inst), instantChecks_iff.2 h.accepted, (), h.within, (), h.free, (),
      h.navSet, (), h.notStale, users, h.charged, (), h.cap, (fee, net), h.parts, (), h.net_pos,
      shares, h.priced, (), h.shares_pos, token₁, h.feePaid, token₂, h.paid, token, h.minted, _,
      ⟨h.total, rfl⟩, rfl⟩

/-- The users' buckets once the shares are charged to the one of their user. -/
def InstantRedeem.charge (ctx : InstantRedeem) (s : VaultState) (inst : InstantSettlement)
    (shares : ℕ) : Result (Pubkey → Option InstantSettlementUser) :=
  if inst.maxUserRedeemShares ≠ 0 then do
    let u ← loadOrInitInstantUser s ctx.instantUser ctx.user
    let u ← u.consumeRedeemLimit shares s.clock.slot inst.maxUserRedeemShares
      s.vault.rollingLimitWindowSlots
    pure (update s.instantUsers ctx.user (some u))
  else
    pure s.instantUsers

/-- What an instant redemption checks and does: `users` are the buckets after it, `v` is the vault
with its redemption window charged, and the shares, the fees and the net assets move in `token₁`,
`token₂` and `token`. -/
structure InstantRedeem.Settles (ctx : InstantRedeem) (s s' : VaultState) (shares : ℕ)
    (remaining : List AccountInfo) (asset share : Mint Pubkey) (inst : InstantSettlement)
    (users : Pubkey → Option InstantSettlementUser) (gross fee extra : ℕ) (v : Vault)
    (token₁ token₂ token : Ledger Pubkey) : Prop where
  accepted : InstantAccepted s ctx.user ctx.assetMint ctx.shareMint ctx.vaultTokenAccount
    ctx.userAssetAccount ctx.userShareAccount ctx.assetTokenProgram ctx.shareTokenProgram asset
    share inst
  within : inst.assertRedeemShares shares = .ok ()
  free : asset.epochFeeBps = 0
  navSet : 0 < s.vault.nav
  notStale : s.vault.assertNavNotStale s.clock.slot = .ok ()
  charged : ctx.charge s inst shares = .ok users
  valued : calculateAssets s.vault.nav share.decimals shares = .ok gross
  liquid : gross ≤ s.token.balance ctx.vaultTokenAccount
  withdrawalFee : getWithdrawalFee s.extensions gross = .ok fee
  instantFee : instantRedemptionFee s.vault.instantRedemptionFeeBps gross = .ok extra
  totalFee : fee + extra < u64
  covers : fee + extra ≤ gross
  net_pos : 0 < gross - (fee + extra)
  limit : s.vault.consumeRedemptionRollingLimit gross s.clock.slot = .ok v
  burned : s.token.burn ctx.shareTokenProgram ctx.userShareAccount ctx.shareMint ctx.user shares =
    .ok token₁
  feePaid : payInstantFee s token₁ ctx.assetTokenProgram ctx.vaultTokenAccount ctx.assetMint s.key
    (fee + extra) ctx.feeRecipientTokenAccount ctx.protocolFeeRecipientTokenAccount remaining =
      .ok token₂
  paid : token₂.transferChecked ctx.assetTokenProgram ctx.vaultTokenAccount ctx.assetMint
    ctx.userAssetAccount s.key (gross - (fee + extra)) = .ok token
  total : gross ≤ v.totalAssetBalance
  state : s' = { s with
    instantUsers := users
    token := token
    vault := { v with totalAssetBalance := v.totalAssetBalance - gross } }

/-- **What an instant redemption does.** -/
theorem instantRedeem_iff {ctx : InstantRedeem} {shares : ℕ} :
    instantRedeem s ctx shares remaining = .ok s' ↔
      ∃ asset share inst users gross fee extra v token₁ token₂ token,
        ctx.Settles s s' shares remaining asset share inst users gross fee extra v token₁ token₂
          token := by
  simp only [instantRedeem, validateAssetMintExtensions, bind_eq_ok, ensure_eq_ok, cpi_eq_ok,
    add_eq_ok, sub_eq_ok, pure_eq_ok]
  constructor
  · rintro ⟨⟨asset, share, inst⟩, hchecks, _, hamount, -, hfree, -, hnav, _, hstale, users, hcharge,
      gross, hgross, -, hliquid, fee, hfee, extra, hextra, _, ⟨htotalFee, rfl⟩, _, ⟨hcovers, rfl⟩,
      -, hnet, v, hlimit, token₁, h₁, token₂, h₂, token, h₃, _, ⟨htotal, rfl⟩, rfl⟩
    exact ⟨asset, share, inst, users, gross, fee, extra, v, token₁, token₂, token,
      instantChecks_iff.1 hchecks, hamount, hfree, hnav, hstale, hcharge, hgross, hliquid, hfee,
      hextra, htotalFee, hcovers, hnet, hlimit, h₁, h₂, h₃, htotal, rfl⟩
  · rintro ⟨asset, share, inst, users, gross, fee, extra, v, token₁, token₂, token, h⟩
    obtain rfl := h.state
    exact ⟨(asset, share, inst), instantChecks_iff.2 h.accepted, (), h.within, (), h.free, (),
      h.navSet, (), h.notStale, users, h.charged, gross, h.valued, (), h.liquid, fee,
      h.withdrawalFee, extra, h.instantFee, _, ⟨h.totalFee, rfl⟩, _, ⟨h.covers, rfl⟩, (), h.net_pos,
      v, h.limit, token₁, h.burned, token₂, h.feePaid, token, h.paid, _, ⟨h.total, rfl⟩, rfl⟩

end

/-! ### NAV updates -/

/-- The state once a gain up to `u` has crystallised, before the fee is paid. -/
def VaultState.marked (s : VaultState) (u : ℕ) : VaultState :=
  { s with vault := { s.vault with
    highWaterMark := u
    lastFeeCrystallizationTimestamp := s.clock.unixTimestamp } }

/-- What the fee of a gain checks and does: of the shares of `mint` it buys `feeShares`, which are
issued in `token` when there are any. -/
structure PaysPerformanceFee (s : VaultState) (u : ℕ) (remaining : List AccountInfo)
    (accounts : PerformanceFeeAccounts) (program : TokenProgram) (mint : Mint Pubkey)
    (feeShares : ℕ) (token : Ledger Pubkey) : Prop where
  found : performanceFeeAccounts (s.marked u) remaining = .ok accounts
  tokenProgram : s.tokenProgramIds.program accounts.shareTokenProgram.key = some program
  shareMint : accounts.shareMint.key = s.vault.shareMint
  info : s.tokenMintInfo accounts.shareMint = .ok mint
  mintProgram : mint.program = program
  recipient : s.validateTokenAccountMintAndOwner accounts.feeRecipient s.vault.shareMint
    s.vault.feeRecipient = .ok ()
  counted : calculatePerformanceFeeShares u s.vault.highWaterMark s.vault.performanceFeeBps
    mint.supply mint.decimals = .ok feeShares
  issued : (feeShares = 0 ∧ token = s.token) ∨
    (feeShares ≠ 0 ∧ mintPerformanceFee (s.marked u) program accounts feeShares = .ok token)

/-- **What becomes of a gain.**  The mark stays while the NAV is not over it, and while the interval
since the last gain runs; else it moves, for nothing or for a fee. -/
inductive Crystallized (s : VaultState) (u : ℕ) (remaining : List AccountInfo) :
    VaultState → List AccountInfo → Prop
  | below (under : u ≤ s.vault.highWaterMark) : Crystallized s u remaining s remaining
  | heldBack (gain : s.vault.highWaterMark < u)
      (held : crystallizationHeldBack s.vault s.clock.unixTimestamp = .ok true) :
      Crystallized s u remaining s remaining
  | untaxed (gain : s.vault.highWaterMark < u)
      (due : crystallizationHeldBack s.vault s.clock.unixTimestamp = .ok false)
      (free : s.vault.performanceFeeBps = 0 ∨ s.vault.highWaterMark = 0) :
      Crystallized s u remaining (s.marked u) remaining
  | taxed {accounts : PerformanceFeeAccounts} {program : TokenProgram} {mint : Mint Pubkey}
      {feeShares : ℕ} {token : Ledger Pubkey} (gain : s.vault.highWaterMark < u)
      (due : crystallizationHeldBack s.vault s.clock.unixTimestamp = .ok false)
      (charged : ¬(s.vault.performanceFeeBps = 0 ∨ s.vault.highWaterMark = 0))
      (paid : PaysPerformanceFee s u remaining accounts program mint feeShares token) :
      Crystallized s u remaining { s.marked u with token := token } accounts.rest

theorem maybeCrystallizePerformanceFee_cases {u : ℕ} {rest : List AccountInfo}
    (h : maybeCrystallizePerformanceFee s u remaining = .ok (s', rest)) :
    Crystallized s u remaining s' rest := by
  unfold maybeCrystallizePerformanceFee at h
  split at h
  · next hle =>
    obtain ⟨rfl, rfl⟩ := Prod.mk.inj (pure_eq_ok.1 h)
    exact .below hle
  · next hlt =>
    have hover : s.vault.highWaterMark < u := by omega
    simp only [bind_eq_ok] at h
    obtain ⟨held, hheld, h⟩ := h
    -- over the mark the interval is asked first
    cases held with
    | true =>
      rw [if_pos rfl] at h
      obtain ⟨rfl, rfl⟩ := Prod.mk.inj (pure_eq_ok.1 h)
      exact .heldBack hover hheld
    | false =>
      rw [if_neg Bool.false_ne_true] at h
      -- then whether there is anything to charge
      split at h
      · next hfree =>
        obtain ⟨rfl, rfl⟩ := Prod.mk.inj (pure_eq_ok.1 h)
        exact .untaxed hover hheld hfree
      · next hcharged =>
        simp only [bind_eq_ok, okOr_eq_ok, ensure_eq_ok] at h
        -- the fee is counted, and minted when there is any
        obtain ⟨accounts, hfound, program, hprogram, -, hshare, mint, hinfo, -, hmint, _,
          hrecipient, feeShares, hcounted, h⟩ := h
        split at h
        · next h0 =>
          obtain ⟨rfl, rfl⟩ := Prod.mk.inj (pure_eq_ok.1 h)
          exact .taxed hover hheld hcharged
            ⟨hfound, hprogram, hshare, hinfo, hmint, hrecipient, hcounted, .inl ⟨h0, rfl⟩⟩
        · next h0 =>
          simp only [bind_eq_ok, pure_eq_ok, Prod.mk.injEq] at h
          obtain ⟨token, htoken, rfl, rfl⟩ := h
          exact .taxed hover hheld hcharged
            ⟨hfound, hprogram, hshare, hinfo, hmint, hrecipient, hcounted, .inr ⟨h0, htoken⟩⟩

/-- What dividing the value among the tranches checks and does. -/
structure Waterfalls (s s' : VaultState) (u : ℕ) (remaining : List AccountInfo)
    (config seniorAccount juniorAccount : AccountInfo) (tc tc' : TrancheConfig)
    (senior junior : Mint Pubkey) : Prop where
  configInfo : remaining[0]? = some config
  seniorMint : remaining[1]? = some seniorAccount
  juniorMint : remaining[2]? = some juniorAccount
  writable : config.isWritable
  named : s.vault.trancheConfig = some config.key
  derived : config.key = s.trancheConfigPda
  loaded : s.loadTrancheConfig config = .ok tc
  vault : tc.vault = s.key
  seniorKey : tc.seniorShareMint = seniorAccount.key
  juniorKey : tc.juniorShareMint = juniorAccount.key
  seniorInfo : s.tokenMintInfo seniorAccount = .ok senior
  juniorInfo : s.tokenMintInfo juniorAccount = .ok junior
  divided : applyTrancheWaterfall tc u s.clock.slot s.clock.unixTimestamp
    ⟨max senior.supply tc.seniorSupply, senior.decimals⟩
    ⟨max junior.supply tc.juniorSupply, junior.decimals⟩ = .ok tc'
  state : s' = { s with trancheConfig := some tc' }

/-- A plain vault has nothing to divide. -/
theorem maybeApplyTrancheWaterfall_iff {u : ℕ} :
    maybeApplyTrancheWaterfall s u remaining = .ok s' ↔
      (s.vault.trancheConfig = none ∧ s' = s) ∨
      ∃ config seniorAccount juniorAccount tc tc' senior junior,
        Waterfalls s s' u remaining config seniorAccount juniorAccount tc tc' senior junior := by
  unfold maybeApplyTrancheWaterfall
  cases hconfig : s.vault.trancheConfig with
  | none =>
    simp only [pure_eq_ok, true_and]
    constructor
    · exact fun h => .inl h.symm
    · rintro (rfl | ⟨_, _, _, _, _, _, _, h⟩)
      · rfl
      · exact absurd (hconfig.symm.trans h.named) (Option.some_ne_none _).symm
  -- of a tranche vault the three accounts come first among the remaining ones
  | some expected =>
    simp only [required, bind_eq_ok, okOr_eq_ok, ensure_eq_ok, pure_eq_ok, reduceCtorEq, false_and,
      false_or]
    constructor
    · rintro ⟨i, hi, j, hj, k, hk, -, hw, -, rfl, -, hpda, tc, htc, -, hv, -, hjk, -, hkk, senior,
        hsenior, junior, hjunior, tc', h, rfl⟩
      exact ⟨i, j, k, tc, tc', senior, junior, hi, hj, hk, hw, hconfig, hpda, htc, hv, hjk, hkk,
        hsenior, hjunior, h, rfl⟩
    · rintro ⟨i, j, k, tc, tc', senior, junior, h⟩
      obtain rfl := h.state
      obtain rfl := Option.some.inj (hconfig.symm.trans h.named)
      exact ⟨i, h.configInfo, j, h.seniorMint, k, h.juniorMint, (), h.writable, (), rfl, (),
        h.derived, tc, h.loaded, (), h.vault, (), h.seniorKey, (), h.juniorKey, senior,
        h.seniorInfo, junior, h.juniorInfo, tc', h.divided, rfl⟩

/-- What a NAV update checks and does: the performance fee is charged in `s₁`, which leaves the
accounts `rest`, and the waterfall divides the value in `s₂`. -/
structure PostingNav (s s' : VaultState) (authority : Pubkey) (updatedNav : ℕ)
    (remaining : List AccountInfo) (s₁ : VaultState) (rest : List AccountInfo) (s₂ : VaultState) :
    Prop where
  signer : authority ≠ s.key
  authorized : authority = s.vault.curator ∨ authority = s.vault.fulfiller
  delta : s.vault.validateNavDelta updatedNav = .ok ()
  apy : s.vault.validateImpliedApy updatedNav s.clock.unixTimestamp = .ok ()
  charged : maybeCrystallizePerformanceFee s updatedNav remaining = .ok (s₁, rest)
  divided : maybeApplyTrancheWaterfall s₁ updatedNav rest = .ok s₂
  counted : s₂.vault.navVersion + 1 < u64
  state : s' = { s₂ with vault := { s₂.vault with
    nav := updatedNav
    navVersion := s₂.vault.navVersion + 1
    lastNavUpdateSlot := s₂.clock.slot
    lastNavUpdateTimestamp := s₂.clock.unixTimestamp } }

/-- **What a NAV update does.** -/
theorem updateVaultNav_iff {authority : Pubkey} {updatedNav : ℕ} :
    updateVaultNav s authority updatedNav remaining = .ok s' ↔
      ∃ s₁ rest s₂, PostingNav s s' authority updatedNav remaining s₁ rest s₂ := by
  simp only [updateVaultNav, bind_eq_ok, VaultState.signer_eq_ok, Vault.assertCuratorOrFulfiller,
    Vault.validateNavUpdate, ensure_eq_ok, add_eq_ok, pure_eq_ok]
  constructor
  · rintro ⟨-, hsigner, -, hauthorized, _, ⟨_, hdelta, hapy⟩, ⟨s₁, rest⟩, h₁, s₂, h₂, _, ⟨hlt, rfl⟩,
      rfl⟩
    exact ⟨s₁, rest, s₂, hsigner, hauthorized, hdelta, hapy, h₁, h₂, hlt, rfl⟩
  · rintro ⟨s₁, rest, s₂, h⟩
    obtain rfl := h.state
    exact ⟨(), h.signer, (), h.authorized, (), ⟨(), h.delta, h.apy⟩, (s₁, rest), h.charged, s₂,
      h.divided, _, ⟨h.counted, rfl⟩, rfl⟩

end AsyncVault
