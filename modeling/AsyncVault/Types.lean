/-
AsyncVault/Types.lean

The data model of the async vault program.

Every account of the program is a structure under the source's field names (in
camel case).  Left out are the PDA bumps, which only feed signer seeds: an
account whose address is derived from seeds is named by the state component
that holds it (see `AsyncVault.State`), so a bump is never read.

Machine integers are natural numbers.  Their widths are enforced where the
source enforces them, by the checked operations of `Checked`; the widths
themselves are the constants `u16`, `u64` and `u128` below.  Timestamps are
signed 64-bit integers in the source and `ℤ` here.

TLV extensions of the vault account are the optional fields of
`VaultExtensions`: an extension that was never initialised is `none`.  The
request-side extension (the queue id) is likewise an optional field per queue.
-/
import AsyncVault.Lib.Checked
import AsyncVault.Lib.KeyedStore
import AsyncVault.Lib.TokenLedger

namespace AsyncVault

open TokenLedger

/-! ### Addresses and widths -/

/-- A 32-byte account address. -/
structure Pubkey where
  bytes : BitVec 256
  deriving DecidableEq

/-- The all-zero address, used by the source for "not set". -/
def Pubkey.default : Pubkey := ⟨0⟩

abbrev u16 : ℕ := 2 ^ 16
abbrev u64 : ℕ := 2 ^ 64
abbrev u128 : ℕ := 2 ^ 128
/-- Half-width of `i64`: its values lie in `[-i64, i64)`. -/
abbrev i64 : ℤ := 2 ^ 63

/-- 100% in basis points. -/
abbrev maxBps : ℕ := 10000

abbrev secondsPerYear : ℕ := 31536000

/-- Most assets, the primary one included, a vault may approve. -/
def maxApprovedAssets : ℕ := 8

/-! ### Errors -/

inductive AsyncVaultError
  | unauthorizedSigner
  | uninitializedVault
  | pausedVault
  | vaultAlreadyInitialized
  | extensionAlreadyInitialized
  | uninitializedExtension
  | invalidExtensionData
  | feeBpsExceeded
  | arithmeticError
  | mintsShouldBeDifferent
  | shareMintSupplyShouldBeZero
  | noPendingAuthority
  | invalidPendingVault
  | missingFeeRecipient
  | invalidFeeRecipient
  | requestInvalidState
  | requestIsNotPending
  | invalidRequestType
  | missingRequiredAccount
  | invalidAssetMintExtensions
  | invalidAssetMint
  | invalidShareMint
  | invalidRequest
  | requestNotPending
  | requestNotClaimable
  | subscriptionsPaused
  | redemptionsPaused
  | subscriptionQueueOutOfOrder
  | requestIsNotCanceled
  | mustUseCancelQueuedDepositRequest
  | redemptionQueueOutOfOrder
  | mustUseCancelQueuedRedemptionRequest
  | subscriptionAmountBelowMinimum
  | redemptionAmountBelowMinimum
  | navIsNotSet
  | insufficientRedeemAmount
  | approvalRequestMismatch
  | insufficientDepositAmount
  | invalidShareMintExtensions
  | staleNav
  | navDeltaExceeded
  | navApyExceeded
  | depositCapExceeded
  | unsupportedPhaseConfig
  | rollingLimitExceeded
  | invalidRollingLimitConfig
  | timelockRequired
  | timelockNotConfigured
  | timelockNotReady
  | invalidTimelockChange
  | staleTimelockAuthority
  | assetAlreadyApproved
  | maxApprovedAssetsExceeded
  | assetBalanceNonZero
  | invalidVault
  | instantSettlementDisabled
  | insufficientLiquidity
  | juniorRatioBelowMinimum
  | invalidTrancheRequestLimitConfig
  | trancheRequestAmountBelowMinimum
  | trancheRequestAmountAboveMaximum
  | invalidInstantSettlementThresholdConfig
  | instantDepositAmountBelowMinimum
  | instantDepositAmountAboveMaximum
  | instantRedeemSharesBelowMinimum
  | instantRedeemSharesAboveMaximum
  | externallyManagedWithdrawalsDisabled
  | invalidVenueDiscriminatorCount
  | venuePaused
  | venuePositionNonZero
  | invalidVenueEntry
  | invalidVenueRecipient
  | invalidPosition
  | positionBalanceNonZero
  | insufficientPositionBalance
  | invalidBalanceDelta
  | invalidStrategyPolicy
  | strategyPolicyPaused
  | emptyMerkleRoot
  | merkleProofTooDeep
  | merkleProofInvalid
  | staleStrategyPolicyVersion
  | invalidPolicyOperator
  | policyOperatorOutOfBounds
  | duplicateManagerLimitOperator
  | invalidVenueInstruction
  | venueInstructionNotAllowed
  | targetProgramMismatch
  | targetProgramNotExecutable
  | unsafeTargetProgram
  | tooManyCpiAccounts
  | instructionDataTooLarge
  | shareSupplyChanged
  | reentrantStrategyCall
  | policyIngestionLimitExceeded
  deriving DecidableEq

/-- Failures raised before a handler runs, by the declared account constraints
and by the runtime. -/
inductive ConstraintError
  | missingSignature
  | accountNotInitialized
  | accountInUse
  | hasOne
  | constraintRaw
  | tokenMint
  | tokenOwner
  | tokenProgram
  | invalidAccountData
  | invalidAccountOwner
  deriving DecidableEq

inductive VaultError
  | async (e : AsyncVaultError)
  | token (e : TokenError)
  | account (e : ConstraintError)
  deriving DecidableEq

abbrev Result := Except VaultError

/-! ### Fees and extensions -/

inductive FeeType
  | fixedAmount (amount : ℕ)
  | percentage (bps : ℕ)
  deriving DecidableEq

/-- Counters of a FIFO queue: requests ever created, and the id of the last one
approved, rejected or skipped. -/
structure FifoQueue where
  total : ℕ
  lastProcessed : ℕ
  deriving DecidableEq

structure InstantSettlement where
  minDepositAmount : ℕ
  maxDepositAmount : ℕ
  minRedeemShares : ℕ
  maxRedeemShares : ℕ
  maxUserDepositAmount : ℕ
  maxUserRedeemShares : ℕ
  enabled : Bool
  deriving DecidableEq

/-- The TLV extensions of a vault account. -/
structure VaultExtensions where
  depositFee : Option FeeType := none
  withdrawalFee : Option FeeType := none
  pausableSubscriptions : Option Bool := none
  pausableRedemptions : Option Bool := none
  subscriptionQueue : Option FifoQueue := none
  redemptionQueue : Option FifoQueue := none
  minSubscription : Option ℕ := none
  minRedemption : Option ℕ := none
  externallyManagedWithdrawals : Option Bool := none
  instantSettlement : Option InstantSettlement := none
  deriving DecidableEq

/-! ### The vault -/

inductive NavMode
  | authoritySigned
  | oracle
  | hybrid
  deriving DecidableEq

structure Vault where
  assetMint : Pubkey
  approvedAssetCount : ℕ
  shareMint : Pubkey
  vaultTokenAccount : Pubkey
  authority : Pubkey
  curator : Pubkey
  manager : Pubkey
  hotManager : Pubkey
  fulfiller : Pubkey
  breaker : Pubkey
  feeRecipient : Pubkey
  paused : Bool
  initialized : Bool
  pendingVault : Pubkey
  nav : ℕ
  navVersion : ℕ
  navMode : NavMode
  requireFreshNav : Bool
  maxNavDeltaBps : ℕ
  maxImpliedApyBps : ℕ
  maxNavStalenessSlots : ℕ
  lastNavUpdateSlot : ℕ
  lastNavUpdateTimestamp : ℤ
  pendingAsyncRequests : ℕ
  totalAssetBalance : ℕ
  depositCap : ℕ
  pendingDepositAmount : ℕ
  rollingLimitWindowSlots : ℕ
  managerRollingLimit : ℕ
  managerWindowStartSlot : ℕ
  managerWindowAmount : ℕ
  externalWithdrawRollingLimit : ℕ
  redemptionRollingLimit : ℕ
  externalWithdrawWindowStartSlot : ℕ
  externalWithdrawWindowAmount : ℕ
  redemptionWindowStartSlot : ℕ
  redemptionWindowAmount : ℕ
  timelockDelaySlots : ℕ
  performanceFeeBps : ℕ
  performanceFeeCrystallizationIntervalSeconds : ℕ
  protocolFeeBps : ℕ
  protocolFeeRecipient : Pubkey
  instantRedemptionFeeBps : ℕ
  highWaterMark : ℕ
  trancheConfig : Option Pubkey
  lastFeeCrystallizationTimestamp : ℤ
  pendingAuthority : Option Pubkey

structure VaultAsset where
  vault : Pubkey
  assetMint : Pubkey
  reserve : Pubkey
  pendingVault : Pubkey
  idleBalance : ℕ
  deployedBalance : ℕ
  pendingDepositAmount : ℕ
  depositCap : ℕ
  managerWindowStartSlot : ℕ
  managerWindowAmount : ℕ
  deriving DecidableEq

structure InstantSettlementUser where
  vault : Pubkey
  user : Pubkey
  depositWindowStartSlot : ℕ
  depositWindowAmount : ℕ
  redeemWindowStartSlot : ℕ
  redeemWindowAmount : ℕ
  deriving DecidableEq

structure ProtocolFeeConfig where
  authority : Pubkey
  protocolFeeRecipient : Pubkey
  deriving DecidableEq

/-! ### Tranches -/

/-- One value per request lane, in the source's order: senior deposit, senior
redeem, junior deposit, junior redeem. -/
structure RequestLimits where
  seniorDeposit : ℕ
  seniorRedeem : ℕ
  juniorDeposit : ℕ
  juniorRedeem : ℕ
  deriving DecidableEq

structure TrancheConfig where
  vault : Pubkey
  seniorShareMint : Pubkey
  juniorShareMint : Pubkey
  seniorNav : ℕ
  juniorNav : ℕ
  seniorSupply : ℕ
  juniorSupply : ℕ
  seniorTargetBps : ℕ
  minJuniorRatioBps : ℕ
  minRequestAmounts : RequestLimits
  maxRequestAmounts : RequestLimits
  seniorSubscription : FifoQueue
  seniorRedemption : FifoQueue
  juniorSubscription : FifoQueue
  juniorRedemption : FifoQueue
  lastWaterfallSlot : ℕ
  lastWaterfallTimestamp : ℤ
  deriving DecidableEq

/-! ### Requests -/

inductive RequestState
  | pending
  | claimable
  | canceled
  deriving DecidableEq

inductive RequestType
  | deposit
  | redeem
  deriving DecidableEq

structure Request where
  vault : Pubkey
  requestType : RequestType
  requestState : RequestState
  owner : Pubkey
  amount : ℕ
  price : ℕ
  assetMintAddress : Pubkey
  shareMintAddress : Pubkey
  createdAt : ℤ
  navUpdateVersion : ℕ
  operator : Option Pubkey
  /-- `SubscriptionQueueRequest` extension of the request account. -/
  subscriptionQueueId : Option ℕ
  /-- `RedemptionQueueRequest` extension of the request account. -/
  redemptionQueueId : Option ℕ
  deriving DecidableEq

/-! ### Queued configuration changes -/

structure UpdateVaultArgs where
  paused : Option Bool := none
  feeRecipient : Option Pubkey := none
  manager : Option Pubkey := none
  hotManager : Option Pubkey := none
  fulfiller : Option Pubkey := none
  breaker : Option Pubkey := none
  navMode : Option NavMode := none
  requireFreshNav : Option Bool := none
  maxNavDeltaBps : Option ℕ := none
  maxImpliedApyBps : Option ℕ := none
  maxNavStalenessSlots : Option ℕ := none
  depositCap : Option ℕ := none
  rollingLimitWindowSlots : Option ℕ := none
  managerRollingLimit : Option ℕ := none
  externalWithdrawRollingLimit : Option ℕ := none
  redemptionRollingLimit : Option ℕ := none
  timelockDelaySlots : Option ℕ := none
  performanceFeeBps : Option ℕ := none
  performanceFeeCrystallizationIntervalSeconds : Option ℕ := none
  protocolFeeBps : Option ℕ := none
  protocolFeeRecipient : Option Pubkey := none
  instantRedemptionFeeBps : Option ℕ := none

inductive FeeUpdateKind
  | deposit
  | withdrawal
  deriving DecidableEq

structure FeeUpdateArgs where
  kind : FeeUpdateKind
  fee : FeeType

inductive ExtensionUpdateKind
  | minSubscription
  | minRedemption
  | pausableSubscriptions
  | pausableRedemptions
  deriving DecidableEq

structure ExtensionUpdateArgs where
  kind : ExtensionUpdateKind
  threshold : ℕ
  paused : Bool

/-- A queued change of the vault's configuration, its fees or one of its
extensions (`PendingVaultUpdate`, `PendingFeeUpdate`, `PendingExtensionUpdate`),
with the change itself of type `α`. -/
structure PendingUpdate (α : Type) where
  vault : Pubkey
  queuedBy : Pubkey
  createdSlot : ℕ
  etaSlot : ℕ
  args : α

end AsyncVault
