/-
AsyncVault/Config.lean

Creation and configuration of a vault.

A vault is created over an empty share mint, whose authority passes to the
vault.  Before it is initialised the curator may add extensions and split it
into tranches; afterwards configuration changes go through direct updates or,
when a timelock is configured, through queued updates that execute once their
slot has come.
-/
import AsyncVault.Nav

namespace AsyncVault

open Checked TokenLedger Function

/-! ### Creation -/

/-- What exists before the vault does: the token ledger, the clock, and the
program-wide accounts and addresses. -/
structure World where
  trancheConfigPda : Pubkey
  protocolFeeConfigPda : Pubkey
  tokenProgramIds : TokenProgramIds
  clock : Clock
  protocolFeeConfig : Option ProtocolFeeConfig
  token : Ledger Pubkey

structure CreateVault where
  mintAuthority : Pubkey
  assetMint : Pubkey
  shareMint : Pubkey
  vault : Pubkey
  reserve : Pubkey
  pendingVault : Pubkey
  assetTokenProgram : TokenProgram
  shareTokenProgram : TokenProgram

structure AsyncVaultArgs where
  authority : Pubkey
  feeRecipient : Pubkey

/-- The vault account as `create_vault` writes it. -/
def initialVault (ctx : CreateVault) (args : AsyncVaultArgs) : Vault where
  assetMint := ctx.assetMint
  approvedAssetCount := 1
  shareMint := ctx.shareMint
  vaultTokenAccount := ctx.reserve
  authority := args.authority
  curator := args.authority
  manager := args.authority
  hotManager := args.authority
  fulfiller := args.authority
  breaker := args.authority
  feeRecipient := args.feeRecipient
  paused := false
  initialized := false
  pendingVault := ctx.pendingVault
  nav := 0
  navVersion := 0
  navMode := .authoritySigned
  requireFreshNav := true
  maxNavDeltaBps := 0
  maxImpliedApyBps := 0
  maxNavStalenessSlots := 0
  lastNavUpdateSlot := 0
  lastNavUpdateTimestamp := 0
  pendingAsyncRequests := 0
  totalAssetBalance := 0
  depositCap := 0
  pendingDepositAmount := 0
  rollingLimitWindowSlots := 0
  managerRollingLimit := 0
  managerWindowStartSlot := 0
  managerWindowAmount := 0
  externalWithdrawRollingLimit := 0
  redemptionRollingLimit := 0
  externalWithdrawWindowStartSlot := 0
  externalWithdrawWindowAmount := 0
  redemptionWindowStartSlot := 0
  redemptionWindowAmount := 0
  timelockDelaySlots := 0
  performanceFeeBps := 0
  performanceFeeCrystallizationIntervalSeconds := 0
  protocolFeeBps := 0
  protocolFeeRecipient := args.feeRecipient
  instantRedemptionFeeBps := 0
  highWaterMark := 0
  trancheConfig := none
  lastFeeCrystallizationTimestamp := 0
  pendingAuthority := none

def createVault (w : World) (ctx : CreateVault) (args : AsyncVaultArgs) : Result VaultState := do
  require (.account .missingSignature) (ctx.mintAuthority ≠ ctx.vault)
  let assetMint ← okOr (.account .accountNotInitialized) (w.token.mints ctx.assetMint)
  let shareMint ← okOr (.account .accountNotInitialized) (w.token.mints ctx.shareMint)
  ensure .mintsShouldBeDifferent (ctx.shareMint ≠ ctx.assetMint)
  let token ← cpi (w.token.initializeAccount ctx.assetTokenProgram ctx.reserve ctx.assetMint
    ctx.vault)
  let token ← cpi (token.initializeAccount ctx.assetTokenProgram ctx.pendingVault ctx.assetMint
    ctx.vault)
  ensure .shareMintSupplyShouldBeZero (shareMint.supply = 0)
  validateAssetMintExtensions assetMint
  validateShareMintExtensions shareMint
  let token ← cpi (token.setMintAuthority ctx.shareTokenProgram ctx.shareMint ctx.mintAuthority
    (some ctx.vault))
  pure
    { key := ctx.vault
      trancheConfigPda := w.trancheConfigPda
      protocolFeeConfigPda := w.protocolFeeConfigPda
      tokenProgramIds := w.tokenProgramIds
      clock := w.clock
      vault := initialVault ctx args
      extensions := {}
      trancheConfig := none
      vaultAssets := fun _ => none
      requests := ∅
      instantUsers := fun _ => none
      protocolFeeConfig := w.protocolFeeConfig
      pendingVaultUpdates := fun _ => none
      pendingFeeUpdates := fun _ => none
      pendingExtensionUpdates := fun _ => none
      token := token }

def initializeVault (s : VaultState) (authority shareMint : Pubkey) : Result VaultState := do
  s.signer authority
  ensure .invalidShareMint (s.vault.shareMint = shareMint)
  ensure .unauthorizedSigner (authority = s.vault.curator)
  s.vault.assertUninitialized
  pure { s with vault := { s.vault with initialized := true } }

/-! ### Tranches -/

structure InitializeTranches where
  mintAuthority : Pubkey
  authority : Pubkey
  seniorShareMint : Pubkey
  juniorShareMint : Pubkey
  seniorShareTokenProgram : TokenProgram
  juniorShareTokenProgram : TokenProgram

structure InitializeTranchesArgs where
  seniorTargetBps : ℕ
  minJuniorRatioBps : ℕ
  minRequestAmounts : RequestLimits
  maxRequestAmounts : RequestLimits

/-- A lane's bounds are in order; a zero maximum disables it. -/
def requestLimitOrdered (minAmount maxAmount : ℕ) : Result Unit :=
  ensure .invalidTrancheRequestLimitConfig (maxAmount = 0 ∨ minAmount ≤ maxAmount)

/-- The tranche configuration as `initialize_tranches` writes it. -/
def initialTrancheConfig (key : Pubkey) (ctx : InitializeTranches) (args : InitializeTranchesArgs) :
    TrancheConfig where
  vault := key
  seniorShareMint := ctx.seniorShareMint
  juniorShareMint := ctx.juniorShareMint
  seniorNav := 0
  juniorNav := 0
  seniorSupply := 0
  juniorSupply := 0
  seniorTargetBps := args.seniorTargetBps
  minJuniorRatioBps := args.minJuniorRatioBps
  minRequestAmounts := args.minRequestAmounts
  maxRequestAmounts := args.maxRequestAmounts
  seniorSubscription := ⟨0, 0⟩
  seniorRedemption := ⟨0, 0⟩
  juniorSubscription := ⟨0, 0⟩
  juniorRedemption := ⟨0, 0⟩
  lastWaterfallSlot := 0
  lastWaterfallTimestamp := 0

/-- The mint's authority is the vault. -/
def requireMintOwnedBy (m : Mint Pubkey) (authority : Pubkey) : Result Unit :=
  ensure .unauthorizedSigner (m.mintAuthority = some authority)

def initializeTranches (s : VaultState) (ctx : InitializeTranches)
    (args : InitializeTranchesArgs) : Result VaultState := do
  s.signer ctx.mintAuthority
  s.signer ctx.authority
  let senior ← s.mintAccount ctx.seniorShareMint
  let junior ← s.mintAccount ctx.juniorShareMint
  require (.account .accountInUse) s.trancheConfig.isNone
  s.vault.assertUninitialized
  s.vault.assertCurator ctx.authority
  ensure .extensionAlreadyInitialized (s.vault.trancheConfig = none)
  ensure .unsupportedPhaseConfig (s.vault.performanceFeeBps = 0)
  ensure .feeBpsExceeded (args.seniorTargetBps ≤ maxBps ∧ args.minJuniorRatioBps ≤ maxBps)
  requestLimitOrdered args.minRequestAmounts.seniorDeposit args.maxRequestAmounts.seniorDeposit
  requestLimitOrdered args.minRequestAmounts.seniorRedeem args.maxRequestAmounts.seniorRedeem
  requestLimitOrdered args.minRequestAmounts.juniorDeposit args.maxRequestAmounts.juniorDeposit
  requestLimitOrdered args.minRequestAmounts.juniorRedeem args.maxRequestAmounts.juniorRedeem
  ensure .mintsShouldBeDifferent (ctx.seniorShareMint ≠ ctx.juniorShareMint)
  ensure .invalidShareMint (ctx.seniorShareMint ≠ s.vault.assetMint)
  ensure .invalidShareMint (ctx.juniorShareMint ≠ s.vault.assetMint)
  ensure .invalidShareMint
    (ctx.seniorShareMint = s.vault.shareMint ∨ ctx.juniorShareMint = s.vault.shareMint)
  ensure .shareMintSupplyShouldBeZero (senior.supply = 0 ∧ junior.supply = 0)
  ensure .invalidShareMint (senior.program = ctx.seniorShareTokenProgram)
  ensure .invalidShareMint (junior.program = ctx.juniorShareTokenProgram)
  validateShareMintExtensions senior
  validateShareMintExtensions junior
  let token ←
    (if ctx.seniorShareMint = s.vault.shareMint then do
      requireMintOwnedBy senior s.key
      cpi (s.token.setMintAuthority ctx.juniorShareTokenProgram ctx.juniorShareMint
        ctx.mintAuthority (some s.key))
    else do
      requireMintOwnedBy junior s.key
      cpi (s.token.setMintAuthority ctx.seniorShareTokenProgram ctx.seniorShareMint
        ctx.mintAuthority (some s.key)))
  pure { s with
    token := token
    trancheConfig := some (initialTrancheConfig s.key ctx args)
    vault := { s.vault with trancheConfig := some s.trancheConfigPda } }

/-! ### Extensions -/

/-- Add an extension that is not present yet, before initialisation
(`init_vault_extension` behind its instructions' curator constraint). -/
def initVaultExtension {α : Type} (s : VaultState) (authority : Pubkey) (current : Option α)
    (extensions : VaultExtensions) : Result VaultState := do
  s.signer authority
  ensure .unauthorizedSigner (authority = s.vault.curator)
  s.vault.assertUninitialized
  ensure .extensionAlreadyInitialized current.isNone
  pure { s with extensions := extensions }

def initDepositFee (s : VaultState) (authority : Pubkey) (fee : FeeType) : Result VaultState := do
  fee.validate
  initVaultExtension s authority s.extensions.depositFee
    { s.extensions with depositFee := some fee }

def initWithdrawalFee (s : VaultState) (authority : Pubkey) (fee : FeeType) :
    Result VaultState := do
  fee.validate
  initVaultExtension s authority s.extensions.withdrawalFee
    { s.extensions with withdrawalFee := some fee }

def initPausableSubscriptions (s : VaultState) (authority : Pubkey) (paused : Bool) :
    Result VaultState :=
  initVaultExtension s authority s.extensions.pausableSubscriptions
    { s.extensions with pausableSubscriptions := some paused }

def initPausableRedemptions (s : VaultState) (authority : Pubkey) (paused : Bool) :
    Result VaultState :=
  initVaultExtension s authority s.extensions.pausableRedemptions
    { s.extensions with pausableRedemptions := some paused }

def initializeSubscriptionQueue (s : VaultState) (authority : Pubkey) : Result VaultState :=
  initVaultExtension s authority s.extensions.subscriptionQueue
    { s.extensions with subscriptionQueue := some ⟨0, 0⟩ }

def initializeRedemptionQueue (s : VaultState) (authority : Pubkey) : Result VaultState :=
  initVaultExtension s authority s.extensions.redemptionQueue
    { s.extensions with redemptionQueue := some ⟨0, 0⟩ }

def initMinSubscription (s : VaultState) (authority : Pubkey) (threshold : ℕ) :
    Result VaultState :=
  initVaultExtension s authority s.extensions.minSubscription
    { s.extensions with minSubscription := some threshold }

def initMinRedemption (s : VaultState) (authority : Pubkey) (threshold : ℕ) :
    Result VaultState :=
  initVaultExtension s authority s.extensions.minRedemption
    { s.extensions with minRedemption := some threshold }

def initializeExternallyManagedWithdrawals (s : VaultState) (authority : Pubkey) :
    Result VaultState :=
  initVaultExtension s authority s.extensions.externallyManagedWithdrawals
    { s.extensions with externallyManagedWithdrawals := some true }

structure InitializeInstantSettlementArgs where
  instantRedemptionFeeBps : ℕ
  minDepositAmount : ℕ
  maxDepositAmount : ℕ
  minRedeemShares : ℕ
  maxRedeemShares : ℕ
  maxUserDepositAmount : ℕ
  maxUserRedeemShares : ℕ

def initializeInstantSettlement (s : VaultState) (authority : Pubkey)
    (args : InitializeInstantSettlementArgs) : Result VaultState := do
  ensure .feeBpsExceeded (args.instantRedemptionFeeBps ≤ maxBps)
  assertInstantSettlementSafetyGuards args.instantRedemptionFeeBps s.vault.maxNavStalenessSlots
  validateInstantSettlementThresholds args.minDepositAmount args.maxDepositAmount
    args.minRedeemShares args.maxRedeemShares
  ensure .unsupportedPhaseConfig (s.vault.trancheConfig = none)
  let inst : InstantSettlement :=
    { minDepositAmount := args.minDepositAmount
      maxDepositAmount := args.maxDepositAmount
      minRedeemShares := args.minRedeemShares
      maxRedeemShares := args.maxRedeemShares
      maxUserDepositAmount := args.maxUserDepositAmount
      maxUserRedeemShares := args.maxUserRedeemShares
      enabled := true }
  let s ← initVaultExtension s authority s.extensions.instantSettlement
    { s.extensions with instantSettlement := some inst }
  pure { s with vault := { s.vault with instantRedemptionFeeBps := args.instantRedemptionFeeBps } }

/-- Overwrite an extension that is present (`update_vault_extension`). -/
def updateVaultExtension {α : Type} (s : VaultState) (current : Option α)
    (extensions : VaultExtensions) : Result VaultState := do
  ensure .uninitializedExtension current.isSome
  pure { s with extensions := extensions }

/-- The accounts of a direct extension update: the curator, without a timelock. -/
def basicExtensionAccounts (s : VaultState) (authority : Pubkey) : Result Unit := do
  s.signer authority
  ensure .unauthorizedSigner (authority = s.vault.curator)
  ensure .timelockRequired (s.vault.timelockDelaySlots = 0)

/-- Apply a fee change to the extension it is for. -/
def applyFeeUpdate (s : VaultState) (args : FeeUpdateArgs) : Result VaultState := do
  args.fee.validate
  match args.kind with
  | .deposit =>
    updateVaultExtension s s.extensions.depositFee
      { s.extensions with depositFee := some args.fee }
  | .withdrawal =>
    updateVaultExtension s s.extensions.withdrawalFee
      { s.extensions with withdrawalFee := some args.fee }

/-- A threshold update leaves the pause flag alone and conversely. -/
def validateExtensionUpdate (args : ExtensionUpdateArgs) : Result Unit :=
  match args.kind with
  | .minSubscription | .minRedemption => ensure .invalidExtensionData (args.paused = false)
  | .pausableSubscriptions | .pausableRedemptions =>
    ensure .invalidExtensionData (args.threshold = 0)

/-- Apply a change to one of the updatable extensions. -/
def applyExtensionUpdate (s : VaultState) (args : ExtensionUpdateArgs) : Result VaultState := do
  validateExtensionUpdate args
  match args.kind with
  | .minSubscription =>
    updateVaultExtension s s.extensions.minSubscription
      { s.extensions with minSubscription := some args.threshold }
  | .minRedemption =>
    updateVaultExtension s s.extensions.minRedemption
      { s.extensions with minRedemption := some args.threshold }
  | .pausableSubscriptions =>
    updateVaultExtension s s.extensions.pausableSubscriptions
      { s.extensions with pausableSubscriptions := some args.paused }
  | .pausableRedemptions =>
    updateVaultExtension s s.extensions.pausableRedemptions
      { s.extensions with pausableRedemptions := some args.paused }

/-- `update_deposit_fee` and `update_withdrawal_fee`. -/
def updateFee (s : VaultState) (authority : Pubkey) (args : FeeUpdateArgs) :
    Result VaultState := do
  basicExtensionAccounts s authority
  applyFeeUpdate s args

/-- `update_min_subscription`, `update_min_redemption`,
`update_pausable_subscriptions` and `update_pausable_redemptions`: each sets the
one value of its extension. -/
def updateExtension (s : VaultState) (authority : Pubkey) (args : ExtensionUpdateArgs) :
    Result VaultState := do
  basicExtensionAccounts s authority
  applyExtensionUpdate s args

end AsyncVault
