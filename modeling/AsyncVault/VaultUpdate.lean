/-
AsyncVault/VaultUpdate.lean

Updates of the vault's configuration, its roles and its assets.

Configuration fields are changed directly by the curator or, under a timelock,
by queueing a change and executing it at its slot; fees and updatable
extensions have queues of their own with the same three instructions, so the
queue is one definition with the payload as a parameter.  The remaining
instructions pause the vault, hand the curator role over, maintain the
program-wide fee configuration and register secondary assets.
-/
import AsyncVault.Config

namespace AsyncVault

open Checked TokenLedger Function

/-! ### Configuration fields -/

/-- Whether a field is given that waits for the timelock; pausing and the breaker do not. -/
def UpdateVaultArgs.hasTimelockedFields (args : UpdateVaultArgs) : Bool :=
  args.feeRecipient.isSome || args.manager.isSome || args.hotManager.isSome ||
  args.fulfiller.isSome || args.navMode.isSome || args.requireFreshNav.isSome ||
  args.maxNavDeltaBps.isSome || args.maxImpliedApyBps.isSome ||
  args.maxNavStalenessSlots.isSome || args.depositCap.isSome ||
  args.rollingLimitWindowSlots.isSome || args.managerRollingLimit.isSome ||
  args.externalWithdrawRollingLimit.isSome || args.redemptionRollingLimit.isSome ||
  args.timelockDelaySlots.isSome || args.performanceFeeBps.isSome ||
  args.performanceFeeCrystallizationIntervalSeconds.isSome || args.protocolFeeBps.isSome ||
  args.protocolFeeRecipient.isSome || args.instantRedemptionFeeBps.isSome

/-- Whether the pause is given. -/
def UpdateVaultArgs.hasPauseChange (args : UpdateVaultArgs) : Bool := args.paused.isSome

/-- The rules a change has to meet, each on the value after it. -/
def validateUpdateArgsSupported (v : Vault) (args : UpdateVaultArgs) : Result Unit := do
  ensure .feeBpsExceeded (∀ bps ∈ args.maxNavDeltaBps, bps ≤ maxBps)
  ensure .feeBpsExceeded (∀ bps ∈ args.performanceFeeBps, bps ≤ maxBps)
  ensure .feeBpsExceeded (∀ bps ∈ args.protocolFeeBps, bps ≤ maxBps)
  let protocolFeeBps := args.protocolFeeBps.getD v.protocolFeeBps
  let protocolFeeRecipient := args.protocolFeeRecipient.getD v.protocolFeeRecipient
  if 0 < protocolFeeBps then
    ensure .invalidFeeRecipient (protocolFeeRecipient ≠ Pubkey.default)
  ensure .feeBpsExceeded (∀ bps ∈ args.instantRedemptionFeeBps, bps ≤ maxBps)
  ensure .unsupportedPhaseConfig (∀ mode ∈ args.navMode, mode = .authoritySigned)
  let performanceFeeBps := args.performanceFeeBps.getD v.performanceFeeBps
  -- tranche vaults take no performance fee
  ensure .unsupportedPhaseConfig (v.trancheConfig = none ∨ performanceFeeBps = 0)
  ensure .invalidRollingLimitConfig (Vault.rollingLimitsSupported
    (args.rollingLimitWindowSlots.getD v.rollingLimitWindowSlots)
    (args.managerRollingLimit.getD v.managerRollingLimit)
    (args.externalWithdrawRollingLimit.getD v.externalWithdrawRollingLimit)
    (args.redemptionRollingLimit.getD v.redemptionRollingLimit))

/-- What may be queued: timelocked fields only, without the pause or the breaker. -/
def validateQueuedVaultUpdate (v : Vault) (args : UpdateVaultArgs) : Result Unit := do
  ensure .invalidTimelockChange (args.hasTimelockedFields ∧ ¬args.hasPauseChange)
  ensure .invalidTimelockChange args.breaker.isNone
  validateUpdateArgsSupported v args

/-- Overwrite the given fields. -/
def Vault.withArgs (v : Vault) (args : UpdateVaultArgs) : Vault :=
  { v with
    paused := args.paused.getD v.paused
    feeRecipient := args.feeRecipient.getD v.feeRecipient
    manager := args.manager.getD v.manager
    hotManager := args.hotManager.getD v.hotManager
    fulfiller := args.fulfiller.getD v.fulfiller
    breaker := args.breaker.getD v.breaker
    navMode := args.navMode.getD v.navMode
    requireFreshNav := args.requireFreshNav.getD v.requireFreshNav
    maxNavDeltaBps := args.maxNavDeltaBps.getD v.maxNavDeltaBps
    maxImpliedApyBps := args.maxImpliedApyBps.getD v.maxImpliedApyBps
    maxNavStalenessSlots := args.maxNavStalenessSlots.getD v.maxNavStalenessSlots
    depositCap := args.depositCap.getD v.depositCap
    rollingLimitWindowSlots := args.rollingLimitWindowSlots.getD v.rollingLimitWindowSlots
    managerRollingLimit := args.managerRollingLimit.getD v.managerRollingLimit
    externalWithdrawRollingLimit :=
      args.externalWithdrawRollingLimit.getD v.externalWithdrawRollingLimit
    redemptionRollingLimit := args.redemptionRollingLimit.getD v.redemptionRollingLimit
    timelockDelaySlots := args.timelockDelaySlots.getD v.timelockDelaySlots
    performanceFeeBps := args.performanceFeeBps.getD v.performanceFeeBps
    performanceFeeCrystallizationIntervalSeconds :=
      args.performanceFeeCrystallizationIntervalSeconds.getD
        v.performanceFeeCrystallizationIntervalSeconds
    protocolFeeBps := args.protocolFeeBps.getD v.protocolFeeBps
    protocolFeeRecipient := args.protocolFeeRecipient.getD v.protocolFeeRecipient
    instantRedemptionFeeBps := args.instantRedemptionFeeBps.getD v.instantRedemptionFeeBps }

/-- The vault after a change, if its whole configuration is still accepted. -/
def applyVaultUpdate (v : Vault) (args : UpdateVaultArgs) : Result Vault := do
  let v := v.withArgs args
  v.validateConfig
  pure v

/-- The curator changes the vault at once, under a timelock only what does not wait for it. -/
def updateVault (s : VaultState) (authority : Pubkey) (args : UpdateVaultArgs) :
    Result VaultState := do
  s.signer authority
  s.vault.assertCurator authority
  ensure .timelockRequired (¬(0 < s.vault.timelockDelaySlots ∧ args.hasTimelockedFields))
  let vault ← applyVaultUpdate s.vault args
  pure { s with vault := vault }

/-! ### Timelocked changes -/

/-- The account a queue instruction creates for a change of the vault. -/
def pendingUpdate {α : Type} (s : VaultState) (authority : Pubkey) (args : α) :
    Result (PendingUpdate α) := do
  let eta ← add arithmetic u64 s.clock.slot s.vault.timelockDelaySlots
  pure ⟨s.key, authority, s.clock.slot, eta, args⟩

/-- The checks every queue instruction starts with. -/
def queueChecks {α : Type} (s : VaultState) (authority : Pubkey)
    (existing : Option (PendingUpdate α)) : Result Unit := do
  s.signer authority
  require (.account .accountInUse) existing.isNone
  s.vault.assertCurator authority
  ensure .timelockNotConfigured (0 < s.vault.timelockDelaySlots)

/-- The checks every execute instruction starts with: the change is for this
vault, its slot has come, and its queuer is still the curator. -/
def executeChecks {α : Type} (s : VaultState) (executor : Pubkey)
    (existing : Option (PendingUpdate α)) : Result α := do
  s.signer executor
  let pending ← okOr (.account .accountNotInitialized) existing
  ensure .invalidTimelockChange (pending.vault = s.key)
  ensure .timelockNotReady (pending.etaSlot ≤ s.clock.slot)
  ensure .staleTimelockAuthority (pending.queuedBy = s.vault.curator)
  pure pending.args

/-- The checks every cancel instruction makes. -/
def cancelChecks {α : Type} (s : VaultState) (authority : Pubkey)
    (existing : Option (PendingUpdate α)) : Result Unit := do
  s.signer authority
  let pending ← okOr (.account .accountNotInitialized) existing
  ensure .invalidTimelockChange (pending.vault = s.key)
  s.vault.assertCurator authority

/-- Queue a change of the configuration. -/
def queueVaultUpdate (s : VaultState) (authority account : Pubkey) (args : UpdateVaultArgs) :
    Result VaultState := do
  queueChecks s authority (s.pendingVaultUpdates account)
  validateQueuedVaultUpdate s.vault args
  let pending ← pendingUpdate s authority args
  pure { s with pendingVaultUpdates := update s.pendingVaultUpdates account (some pending) }

/-- Make the queued change, checked again on the vault as it is now. -/
def executeVaultUpdate (s : VaultState) (executor account : Pubkey) : Result VaultState := do
  let args ← executeChecks s executor (s.pendingVaultUpdates account)
  validateQueuedVaultUpdate s.vault args
  let vault ← applyVaultUpdate s.vault args
  pure { s with
    vault := vault
    pendingVaultUpdates := update s.pendingVaultUpdates account none }

/-- Drop the queued change. -/
def cancelVaultUpdate (s : VaultState) (authority account : Pubkey) : Result VaultState := do
  cancelChecks s authority (s.pendingVaultUpdates account)
  pure { s with pendingVaultUpdates := update s.pendingVaultUpdates account none }

/-- Queue a change of a deposit or withdrawal fee. -/
def queueFeeUpdate (s : VaultState) (authority account : Pubkey) (args : FeeUpdateArgs) :
    Result VaultState := do
  queueChecks s authority (s.pendingFeeUpdates account)
  args.fee.validate
  let pending ← pendingUpdate s authority args
  pure { s with pendingFeeUpdates := update s.pendingFeeUpdates account (some pending) }

/-- Make it. -/
def executeFeeUpdate (s : VaultState) (executor account : Pubkey) : Result VaultState := do
  let args ← executeChecks s executor (s.pendingFeeUpdates account)
  let s ← applyFeeUpdate s args
  pure { s with pendingFeeUpdates := update s.pendingFeeUpdates account none }

/-- Drop it. -/
def cancelFeeUpdate (s : VaultState) (authority account : Pubkey) : Result VaultState := do
  cancelChecks s authority (s.pendingFeeUpdates account)
  pure { s with pendingFeeUpdates := update s.pendingFeeUpdates account none }

/-- Whether the extension a change is for is present. -/
def VaultExtensions.hasUpdatable (ext : VaultExtensions) : ExtensionUpdateKind → Bool
  | .minSubscription => ext.minSubscription.isSome
  | .minRedemption => ext.minRedemption.isSome
  | .pausableSubscriptions => ext.pausableSubscriptions.isSome
  | .pausableRedemptions => ext.pausableRedemptions.isSome

/-- Queue a change of an extension the vault has. -/
def queueExtensionUpdate (s : VaultState) (authority account : Pubkey)
    (args : ExtensionUpdateArgs) : Result VaultState := do
  queueChecks s authority (s.pendingExtensionUpdates account)
  validateExtensionUpdate args
  ensure .uninitializedExtension (s.extensions.hasUpdatable args.kind)
  let pending ← pendingUpdate s authority args
  pure { s with
    pendingExtensionUpdates := update s.pendingExtensionUpdates account (some pending) }

/-- Make it. -/
def executeExtensionUpdate (s : VaultState) (executor account : Pubkey) :
    Result VaultState := do
  let args ← executeChecks s executor (s.pendingExtensionUpdates account)
  let s ← applyExtensionUpdate s args
  pure { s with pendingExtensionUpdates := update s.pendingExtensionUpdates account none }

/-- Drop it. -/
def cancelExtensionUpdate (s : VaultState) (authority account : Pubkey) :
    Result VaultState := do
  cancelChecks s authority (s.pendingExtensionUpdates account)
  pure { s with pendingExtensionUpdates := update s.pendingExtensionUpdates account none }

/-! ### Pause and roles -/

/-- The breaker pauses the vault; unpausing is an update. -/
def pauseVault (s : VaultState) (breaker : Pubkey) : Result VaultState := do
  s.signer breaker
  s.vault.assertBreaker breaker
  pure { s with vault := { s.vault with paused := true } }

/-- The curator names who may take over. -/
def inviteNewAuthority (s : VaultState) (authority newAuthority : Pubkey) :
    Result VaultState := do
  s.signer authority
  s.vault.assertCurator authority
  pure { s with vault := { s.vault with pendingAuthority := some newAuthority } }

/-- The new authority replaces the old one in every role the old one held. -/
def acceptAuthorityInvitation (s : VaultState) (newAuthority : Pubkey) : Result VaultState := do
  s.signer newAuthority
  let pending ← okOr (.async .noPendingAuthority) s.vault.pendingAuthority
  ensure .unauthorizedSigner (newAuthority = pending)
  let replace (role : Pubkey) : Pubkey := if role = s.vault.authority then pending else role
  pure { s with vault := { s.vault with
    authority := pending
    curator := pending
    manager := replace s.vault.manager
    hotManager := replace s.vault.hotManager
    fulfiller := replace s.vault.fulfiller
    breaker := replace s.vault.breaker
    pendingAuthority := none } }

/-! ### Program-wide fee configuration -/

/-- The first caller becomes the authority of the configuration. -/
def initializeProtocolFeeConfig (s : VaultState) (authority recipient : Pubkey) :
    Result VaultState := do
  s.signer authority
  require (.account .accountInUse) s.protocolFeeConfig.isNone
  ensure .invalidFeeRecipient (recipient ≠ Pubkey.default)
  pure { s with protocolFeeConfig := some ⟨authority, recipient⟩ }

/-- Its authority changes who receives the fees. -/
def updateProtocolFeeConfig (s : VaultState) (authority recipient : Pubkey) :
    Result VaultState := do
  s.signer authority
  let config ← okOr (.account .accountNotInitialized) s.protocolFeeConfig
  ensure .unauthorizedSigner (config.authority = authority)
  ensure .invalidFeeRecipient (recipient ≠ Pubkey.default)
  pure { s with protocolFeeConfig := some { config with protocolFeeRecipient := recipient } }

/-! ### Secondary assets -/

/-- The accounts of `add_vault_asset`. -/
structure AddVaultAsset where
  authority : Pubkey
  assetMint : Pubkey
  reserve : Pubkey
  pendingVault : Pubkey
  assetTokenProgram : TokenProgram

/-- Register another asset, with a reserve and an escrow of its own. -/
def addVaultAsset (s : VaultState) (ctx : AddVaultAsset) (depositCap : ℕ) :
    Result VaultState := do
  s.signer ctx.authority
  let assetMint ← s.mintAccount ctx.assetMint
  require (.account .accountInUse) (s.vaultAssets ctx.assetMint).isNone
  -- `init` creates both accounts before the handler runs
  let token ← cpi (s.token.initializeAccount ctx.assetTokenProgram ctx.reserve ctx.assetMint s.key)
  let token ← cpi (token.initializeAccount ctx.assetTokenProgram ctx.pendingVault ctx.assetMint
    s.key)
  s.vault.assertCurator ctx.authority
  ensure .timelockRequired (s.vault.timelockDelaySlots = 0)
  ensure .assetAlreadyApproved (ctx.assetMint ≠ s.vault.assetMint)
  ensure .maxApprovedAssetsExceeded (s.vault.approvedAssetCount < maxApprovedAssets)
  validateAssetMintExtensions assetMint
  pure { s with
    token := token
    vaultAssets := update s.vaultAssets ctx.assetMint (some
      { vault := s.key
        assetMint := ctx.assetMint
        reserve := ctx.reserve
        pendingVault := ctx.pendingVault
        idleBalance := 0
        deployedBalance := 0
        pendingDepositAmount := 0
        depositCap := depositCap
        managerWindowStartSlot := 0
        managerWindowAmount := 0 })
    vault := { s.vault with approvedAssetCount := s.vault.approvedAssetCount + 1 } }

/-- Remove an asset without balances and close both of its accounts. -/
def removeVaultAsset (s : VaultState) (authority assetMint : Pubkey) : Result VaultState := do
  s.signer authority
  let va ← okOr (.account .accountNotInitialized) (s.vaultAssets assetMint)
  va.assertMatches s.key assetMint
  let reserve ← s.tokenAccount va.reserve assetMint s.key
  let pendingVault ← s.tokenAccount va.pendingVault assetMint s.key
  s.vault.assertCurator authority
  ensure .timelockRequired (s.vault.timelockDelaySlots = 0)
  -- the ledger's balances and the accounts' own, which anyone can add to
  ensure .assetBalanceNonZero (va.idleBalance = 0 ∧ va.deployedBalance = 0 ∧
    va.pendingDepositAmount = 0 ∧ reserve.amount = 0 ∧ pendingVault.amount = 0)
  let count ← sub arithmetic s.vault.approvedAssetCount 1
  let token ← cpi (s.token.closeAccount va.reserve s.key)
  let token ← cpi (token.closeAccount va.pendingVault s.key)
  pure { s with
    token := token
    vaultAssets := update s.vaultAssets assetMint none
    vault := { s.vault with approvedAssetCount := count } }

end AsyncVault
