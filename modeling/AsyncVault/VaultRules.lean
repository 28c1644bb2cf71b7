/-
AsyncVault/VaultRules.lean

The checks and small updates the program attaches to its accounts: who may
sign, when a NAV is usable, how caps and rolling limits are consumed, which
configurations are accepted, and how the two kinds of FIFO counter advance.

Mutating methods of the source return the updated account here.
-/
import AsyncVault.Fee

namespace AsyncVault

open Checked

/-! ### Roles and lifecycle -/

namespace Vault

/-- The asset the vault was created with; the others are registered with it. -/
def isPrimaryAsset (v : Vault) (assetMint : Pubkey) : Bool :=
  v.assetMint = assetMint

/-- The vault is in use: initialized and not paused. -/
def assertUnpausedAndInitialized (v : Vault) : Result Unit := do
  ensure .uninitializedVault v.initialized
  ensure .pausedVault (v.paused = false)

def assertUninitialized (v : Vault) : Result Unit :=
  ensure .vaultAlreadyInitialized (v.initialized = false)

def assertCurator (v : Vault) (signer : Pubkey) : Result Unit :=
  ensure .unauthorizedSigner (signer = v.curator)

def assertCuratorOrFulfiller (v : Vault) (signer : Pubkey) : Result Unit :=
  ensure .unauthorizedSigner (signer = v.curator ∨ signer = v.fulfiller)

def assertBreaker (v : Vault) (signer : Pubkey) : Result Unit :=
  ensure .unauthorizedSigner (signer = v.breaker)

/-! ### NAV freshness -/

/-- Under `require_fresh_nav` a request waits for a NAV update made after it. -/
def assertFreshNavForRequest (v : Vault) (requestNavVersion : ℕ) : Result Unit :=
  if v.requireFreshNav then
    ensure .staleNav (requestNavVersion < v.navVersion)
  else
    pure ()

/-- The NAV was updated within the allowed number of slots; zero allows any. -/
def assertNavNotStale (v : Vault) (currentSlot : ℕ) : Result Unit :=
  if v.maxNavStalenessSlots = 0 then
    pure ()
  else do
    let elapsedSlots ← sub arithmetic currentSlot v.lastNavUpdateSlot
    ensure .staleNav (elapsedSlots ≤ v.maxNavStalenessSlots)

/-! ### Caps and rolling limits -/

/-- Whether the sum of three amounts stays within a cap; zero disables it. -/
def capAllows (cap balance pending additional : ℕ) : Result Unit :=
  if cap = 0 then
    pure ()
  else do
    let reserved ← add arithmetic u64 balance pending
    let reserved ← add arithmetic u64 reserved additional
    ensure .depositCapExceeded (reserved ≤ cap)

/-- What the vault holds, what waits to be approved and the deposit stay within the cap. -/
def assertDepositCapAllows (v : Vault) (additionalAmount : ℕ) : Result Unit :=
  capAllows v.depositCap v.totalAssetBalance v.pendingDepositAmount additionalAmount

/-- Consume `amount` of a limit per window.  Returns the window's start slot and
the amount consumed in it; a zero limit consumes nothing. -/
def consumeRollingLimit (amount currentSlot limit windowSlots windowStartSlot windowAmount : ℕ) :
    Result (ℕ × ℕ) :=
  if limit = 0 then
    pure (windowStartSlot, windowAmount)
  else do
    ensure .invalidRollingLimitConfig (0 < windowSlots)
    -- a window that ended, or never started, starts now
    let windowEnd ← add arithmetic u64 windowStartSlot windowSlots
    let (start, used) :=
      if (windowStartSlot = 0 ∧ windowAmount = 0) ∨ windowEnd ≤ currentSlot then
        (currentSlot, 0)
      else
        (windowStartSlot, windowAmount)
    let nextAmount ← add arithmetic u64 used amount
    ensure .rollingLimitExceeded (nextAmount ≤ limit)
    pure (start, nextAmount)

/-- Charge a redemption to its window. -/
def consumeRedemptionRollingLimit (v : Vault) (amount currentSlot : ℕ) : Result Vault := do
  let (start, used) ← consumeRollingLimit amount currentSlot v.redemptionRollingLimit
    v.rollingLimitWindowSlots v.redemptionWindowStartSlot v.redemptionWindowAmount
  pure { v with redemptionWindowStartSlot := start, redemptionWindowAmount := used }

/-! ### Guards of a NAV update -/

/-- The NAV moves by no more than a fraction of itself, if it had a value. -/
def validateNavDelta (v : Vault) (updatedNav : ℕ) : Result Unit :=
  if v.maxNavDeltaBps = 0 ∨ v.nav = 0 then
    pure ()
  else do
    -- `abs_diff`
    let delta := (updatedNav - v.nav) + (v.nav - updatedNav)
    let scaled ← mul arithmetic u128 delta maxBps
    let deltaBps ← div arithmetic scaled v.nav
    ensure .navDeltaExceeded (deltaBps ≤ v.maxNavDeltaBps)

/-- A gain, extended to a year, stays within the limit; losses and first updates pass. -/
def validateImpliedApy (v : Vault) (updatedNav : ℕ) (now : ℤ) : Result Unit :=
  if v.maxImpliedApyBps = 0 ∨ v.nav = 0 ∨ updatedNav ≤ v.nav ∨ v.lastNavUpdateTimestamp = 0 then
    pure ()
  else do
    let elapsedSeconds ← subInt arithmetic i64 now v.lastNavUpdateTimestamp
    -- without time between the updates any gain passes
    if elapsedSeconds ≤ 0 then
      pure ()
    else do
      let gain ← sub arithmetic updatedNav v.nav
      let scaled ← mul arithmetic u128 gain maxBps
      -- rounded down before it is extended to a year
      let gainBps ← div arithmetic scaled v.nav
      let annual ← mul arithmetic u128 gainBps secondsPerYear
      let annualizedBps ← div arithmetic annual elapsedSeconds.toNat
      ensure .navApyExceeded (annualizedBps ≤ v.maxImpliedApyBps)

/-- Both guards of an update. -/
def validateNavUpdate (v : Vault) (updatedNav : ℕ) (now : ℤ) : Result Unit := do
  v.validateNavDelta updatedNav
  v.validateImpliedApy updatedNav now

/-! ### Configuration -/

/-- Rolling limits need a window to roll over. -/
def rollingLimitsSupported (window manager external redemption : ℕ) : Prop :=
  0 < window ∨ (manager = 0 ∧ external = 0 ∧ redemption = 0)

instance (window manager external redemption : ℕ) :
    Decidable (rollingLimitsSupported window manager external redemption) :=
  inferInstanceAs (Decidable (_ ∨ _))

/-- The rules of a configuration, checked after every change of it. -/
def validateConfig (v : Vault) : Result Unit := do
  ensure .feeBpsExceeded (v.maxNavDeltaBps ≤ maxBps ∧ v.performanceFeeBps ≤ maxBps ∧
    v.protocolFeeBps ≤ maxBps ∧ v.instantRedemptionFeeBps ≤ maxBps)
  ensure .unsupportedPhaseConfig (v.navMode = .authoritySigned)
  ensure .unsupportedPhaseConfig (v.trancheConfig = none ∨ v.performanceFeeBps = 0)
  if 0 < v.protocolFeeBps then
    ensure .invalidFeeRecipient (v.protocolFeeRecipient ≠ Pubkey.default)
  ensure .invalidRollingLimitConfig (rollingLimitsSupported v.rollingLimitWindowSlots
    v.managerRollingLimit v.externalWithdrawRollingLimit v.redemptionRollingLimit)

/-- An accepted configuration, rule by rule. -/
structure ConfigValid (v : Vault) : Prop where
  navDelta : v.maxNavDeltaBps ≤ maxBps
  performanceFee : v.performanceFeeBps ≤ maxBps
  protocolFee : v.protocolFeeBps ≤ maxBps
  instantFee : v.instantRedemptionFeeBps ≤ maxBps
  signed : v.navMode = .authoritySigned
  tranche : v.trancheConfig = none ∨ v.performanceFeeBps = 0
  recipient : 0 < v.protocolFeeBps → v.protocolFeeRecipient ≠ Pubkey.default
  limits : rollingLimitsSupported v.rollingLimitWindowSlots v.managerRollingLimit
    v.externalWithdrawRollingLimit v.redemptionRollingLimit

/-- The check accepts exactly the valid configurations. -/
theorem validateConfig_eq_ok {v : Vault} {u : Unit} :
    v.validateConfig = .ok u ↔ v.ConfigValid := by
  simp only [validateConfig, bind_eq_ok, ensure_eq_ok, exists_const]
  constructor
  · rintro ⟨⟨hdelta, hperformance, hprotocol, hinstant⟩, hsigned, htranche, h⟩
    split at h
    · next hfee =>
      simp only [bind_eq_ok, ensure_eq_ok, exists_const] at h
      exact ⟨hdelta, hperformance, hprotocol, hinstant, hsigned, htranche, fun _ => h.1, h.2⟩
    · next hfee =>
      simp only [ensure_eq_ok] at h
      exact ⟨hdelta, hperformance, hprotocol, hinstant, hsigned, htranche,
        fun h' => absurd h' hfee, h⟩
  · rintro ⟨hdelta, hperformance, hprotocol, hinstant, hsigned, htranche, hrecipient, hlimits⟩
    refine ⟨⟨hdelta, hperformance, hprotocol, hinstant⟩, hsigned, htranche, ?_⟩
    split
    · next hfee =>
      simp only [bind_eq_ok, ensure_eq_ok, exists_const]
      exact ⟨hrecipient hfee, hlimits⟩
    · simpa only [pure_bind, ensure_eq_ok] using hlimits

theorem assertUnpausedAndInitialized_eq_ok {v : Vault} {u : Unit} :
    v.assertUnpausedAndInitialized = .ok u ↔ v.initialized = true ∧ v.paused = false := by
  simp [assertUnpausedAndInitialized]

/-- Consuming the redemption limit touches nothing but its window. -/
theorem consumeRedemptionRollingLimit_ok {v v' : Vault} {amount slot : ℕ}
    (h : v.consumeRedemptionRollingLimit amount slot = .ok v') :
    ∃ start used, v' =
      { v with redemptionWindowStartSlot := start, redemptionWindowAmount := used } := by
  simp only [consumeRedemptionRollingLimit, bind_eq_ok, pure_eq_ok] at h
  obtain ⟨⟨start, used⟩, -, rfl⟩ := h
  exact ⟨start, used, rfl⟩

/-- Without a redemption limit nothing is consumed. -/
theorem consumeRedemptionRollingLimit_disabled {v : Vault} (h : v.redemptionRollingLimit = 0)
    (amount slot : ℕ) : v.consumeRedemptionRollingLimit amount slot = .ok v := by
  unfold consumeRedemptionRollingLimit consumeRollingLimit
  rw [if_pos h]
  rfl

end Vault

/-! ### Secondary assets and users -/

namespace VaultAsset

/-- The account is the vault's, for this asset. -/
def assertMatches (va : VaultAsset) (vault assetMint : Pubkey) : Result Unit := do
  ensure .invalidVault (va.vault = vault)
  ensure .invalidAssetMint (va.assetMint = assetMint)

def assertPendingVault (va : VaultAsset) (pendingVault : Pubkey) : Result Unit :=
  ensure .invalidPendingVault (va.pendingVault = pendingVault)

def assertReserve (va : VaultAsset) (reserve : Pubkey) : Result Unit :=
  ensure .invalidVault (va.reserve = reserve)

/-- The same rule for an asset's own cap and balances. -/
def assertDepositCapAllows (va : VaultAsset) (additionalAmount : ℕ) : Result Unit :=
  Vault.capAllows va.depositCap va.idleBalance va.pendingDepositAmount additionalAmount

end VaultAsset

namespace InstantSettlementUser

/-- A user account as `init_if_needed` creates it. -/
def zeroed : InstantSettlementUser := ⟨Pubkey.default, Pubkey.default, 0, 0, 0, 0⟩

/-- Fill in a new account; an existing one must be the vault's and the user's. -/
def ensureInitialized (u : InstantSettlementUser) (vault user : Pubkey) :
    Result InstantSettlementUser :=
  if u.vault = Pubkey.default ∧ u.user = Pubkey.default then
    pure { u with vault := vault, user := user }
  else do
    ensure .invalidVault (u.vault = vault)
    ensure .unauthorizedSigner (u.user = user)
    pure u

/-- Charge an instant deposit to its window. -/
def consumeDepositLimit (u : InstantSettlementUser) (amount currentSlot limit windowSlots : ℕ) :
    Result InstantSettlementUser := do
  let (start, used) ← Vault.consumeRollingLimit amount currentSlot limit windowSlots
    u.depositWindowStartSlot u.depositWindowAmount
  pure { u with depositWindowStartSlot := start, depositWindowAmount := used }

/-- Charge an instant redemption to its window. -/
def consumeRedeemLimit (u : InstantSettlementUser) (amount currentSlot limit windowSlots : ℕ) :
    Result InstantSettlementUser := do
  let (start, used) ← Vault.consumeRollingLimit amount currentSlot limit windowSlots
    u.redeemWindowStartSlot u.redeemWindowAmount
  pure { u with redeemWindowStartSlot := start, redeemWindowAmount := used }

end InstantSettlementUser

/-! ### Extension checks -/

namespace VaultExtensions

def checkSubscriptionsPaused (ext : VaultExtensions) : Result Unit :=
  ensure .subscriptionsPaused (ext.pausableSubscriptions.getD false = false)

def checkRedemptionsPaused (ext : VaultExtensions) : Result Unit :=
  ensure .redemptionsPaused (ext.pausableRedemptions.getD false = false)

def checkMinSubscriptionAmount (ext : VaultExtensions) (amount : ℕ) : Result Unit :=
  ensure .subscriptionAmountBelowMinimum (ext.minSubscription.getD 0 ≤ amount)

def checkMinRedemptionAmount (ext : VaultExtensions) (amount : ℕ) : Result Unit :=
  ensure .redemptionAmountBelowMinimum (ext.minRedemption.getD 0 ≤ amount)

/-- Instant settlement needs the extension, switched on. -/
def assertInstantSettlementEnabled (ext : VaultExtensions) : Result InstantSettlement := do
  let inst ← okOr (.async .instantSettlementDisabled) ext.instantSettlement
  ensure .instantSettlementDisabled inst.enabled
  pure inst

end VaultExtensions

/-- It is switched on only with a redemption fee and a staleness limit. -/
def assertInstantSettlementSafetyGuards (instantRedemptionFeeBps maxNavStalenessSlots : ℕ) :
    Result Unit :=
  ensure .invalidInstantSettlementThresholdConfig
    (0 < instantRedemptionFeeBps ∧ 0 < maxNavStalenessSlots)

/-- A maximum lies above its minimum; zero is no maximum. -/
def validateInstantSettlementThresholds (minDepositAmount maxDepositAmount minRedeemShares
    maxRedeemShares : ℕ) : Result Unit := do
  ensure .invalidInstantSettlementThresholdConfig
    (maxDepositAmount = 0 ∨ minDepositAmount ≤ maxDepositAmount)
  ensure .invalidInstantSettlementThresholdConfig
    (maxRedeemShares = 0 ∨ minRedeemShares ≤ maxRedeemShares)

namespace InstantSettlement

def assertDepositAmount (inst : InstantSettlement) (amount : ℕ) : Result Unit := do
  ensure .instantDepositAmountBelowMinimum
    (inst.minDepositAmount = 0 ∨ inst.minDepositAmount ≤ amount)
  ensure .instantDepositAmountAboveMaximum
    (inst.maxDepositAmount = 0 ∨ amount ≤ inst.maxDepositAmount)

def assertRedeemShares (inst : InstantSettlement) (shares : ℕ) : Result Unit := do
  ensure .instantRedeemSharesBelowMinimum
    (inst.minRedeemShares = 0 ∨ inst.minRedeemShares ≤ shares)
  ensure .instantRedeemSharesAboveMaximum
    (inst.maxRedeemShares = 0 ∨ shares ≤ inst.maxRedeemShares)

end InstantSettlement

/-! ### FIFO counters -/

namespace FifoQueue

/-- Count one more request; its id is the new total (which wraps). -/
def incrementTotal (q : FifoQueue) : FifoQueue :=
  { q with total := (q.total + 1) % u64 }

/-- The only id that may be processed next. -/
def expected (q : FifoQueue) : ℕ := (q.lastProcessed + 1) % u64

end FifoQueue

/-- Error of processing a request out of order. -/
def RequestType.outOfOrderError : RequestType → AsyncVaultError
  | .deposit => .subscriptionQueueOutOfOrder
  | .redeem => .redemptionQueueOutOfOrder

/-- The id a request account carries for the queue of a request type. -/
def Request.queueId (r : Request) : RequestType → Option ℕ
  | .deposit => r.subscriptionQueueId
  | .redeem => r.redemptionQueueId

/-- Process the request with the given id: it must be the expected one. -/
def FifoQueue.advance (q : FifoQueue) (requestType : RequestType) (requestId : ℕ) :
    Result FifoQueue := do
  ensure requestType.outOfOrderError (requestId = q.expected)
  pure { q with lastProcessed := requestId }

namespace VaultExtensions

/-- The queue extension of the vault for a request type. -/
def queue (ext : VaultExtensions) : RequestType → Option FifoQueue
  | .deposit => ext.subscriptionQueue
  | .redeem => ext.redemptionQueue

/-- The queue after a step. -/
def setQueue (ext : VaultExtensions) (requestType : RequestType) (q : FifoQueue) :
    VaultExtensions :=
  match requestType with
  | .deposit => { ext with subscriptionQueue := some q }
  | .redeem => { ext with redemptionQueue := some q }

def hasFifoQueue (ext : VaultExtensions) (requestType : RequestType) : Bool :=
  (ext.queue requestType).isSome

/-- `next_queue_request_id`: the next id, when the vault has the queue. -/
def nextQueueRequestId (ext : VaultExtensions) (requestType : RequestType) :
    VaultExtensions × Option ℕ :=
  match ext.queue requestType with
  | none => (ext, none)
  | some q => (ext.setQueue requestType q.incrementTotal, some q.incrementTotal.total)

/-- `check_and_advance_queue`: enforce the order when the vault has the queue. -/
def checkAndAdvanceQueue (ext : VaultExtensions) (requestType : RequestType) (r : Request) :
    Result VaultExtensions :=
  match ext.queue requestType with
  | none => pure ext
  | some q => do
    let id ← okOr (.async .uninitializedExtension) (r.queueId requestType)
    let q ← q.advance requestType id
    pure (ext.setQueue requestType q)

end VaultExtensions

namespace TrancheConfig

/-- The lane of a tranche vault a request belongs to. -/
def lane (tc : TrancheConfig) (selectedShareMint : Pubkey) (requestType : RequestType) :
    Result FifoQueue :=
  if selectedShareMint = tc.seniorShareMint then
    pure (match requestType with
      | .deposit => tc.seniorSubscription
      | .redeem => tc.seniorRedemption)
  else if selectedShareMint = tc.juniorShareMint then
    pure (match requestType with
      | .deposit => tc.juniorSubscription
      | .redeem => tc.juniorRedemption)
  else
    .error (.async .invalidShareMint)

/-- The lane after a step; the mint is that of a tranche, since its lane was read. -/
def setLane (tc : TrancheConfig) (selectedShareMint : Pubkey) (requestType : RequestType)
    (q : FifoQueue) : TrancheConfig :=
  if selectedShareMint = tc.seniorShareMint then
    match requestType with
    | .deposit => { tc with seniorSubscription := q }
    | .redeem => { tc with seniorRedemption := q }
  else
    match requestType with
    | .deposit => { tc with juniorSubscription := q }
    | .redeem => { tc with juniorRedemption := q }

/-- Every request of a tranche vault joins a lane. -/
def nextQueueRequestId (tc : TrancheConfig) (selectedShareMint : Pubkey)
    (requestType : RequestType) : Result (TrancheConfig × ℕ) := do
  let q ← tc.lane selectedShareMint requestType
  pure (tc.setLane selectedShareMint requestType q.incrementTotal, q.incrementTotal.total)

/-- And leaves it in order. -/
def checkAndAdvanceQueue (tc : TrancheConfig) (selectedShareMint : Pubkey)
    (requestType : RequestType) (requestId : ℕ) : Result TrancheConfig := do
  let q ← tc.lane selectedShareMint requestType
  let q ← q.advance requestType requestId
  pure (tc.setLane selectedShareMint requestType q)

end TrancheConfig

end AsyncVault
