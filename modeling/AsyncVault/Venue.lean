/-
AsyncVault/Venue.lean

Venues, and the assets a vault deploys to them.

A registry authority lists a venue; the curator approves it for the vault and
opens a position per asset, which is a token account of the vault's with a
ledger of its own.  Managers move assets between the reserve and positions, and
the curator may withdraw them to the recipient approved with the venue.

`ManagedState` adds the accounts of venues and of strategy policies to the state
of a vault.  All of them have derived addresses and are keyed by what varies in
the seeds: a venue entry by its registry authority and id, the vault's approval
of it by the entry, a position by entry and asset, a policy by its strategist.
An entry's risk class and type and the slot of an approval are read by no
instruction and left out, and so are the keys a position repeats from its seeds.
-/
import AsyncVault.Program

namespace AsyncVault

open Checked TokenLedger KeyedStore Function

/-! ### Accounts -/

/-- What the address of a venue entry is derived from. -/
structure VenueEntryKey where
  registryAuthority : Pubkey
  venueId : BitVec 256
  deriving DecidableEq

/-- A venue in the registry: the program it is run by and the calls of it that are allowed. -/
structure VenueEntry where
  registryAuthority : Pubkey
  targetProgram : Pubkey
  /-- The active discriminators of `allowed_discriminators`. -/
  allowedDiscriminators : List (List (BitVec 8))
  routineSafe : Bool
  paused : Bool
  deriving DecidableEq

/-- The vault's approval of a venue, with a copy of the entry's program and safety. -/
structure VaultVenue where
  vault : Pubkey
  venueEntry : VenueEntryKey
  recipientAuthority : Pubkey
  targetProgram : Pubkey
  routineSafe : Bool
  paused : Bool
  positionCount : ℕ
  deriving DecidableEq

/-- What a vault has deployed of one asset to one venue. -/
structure Position where
  vault : Pubkey
  venueEntry : VenueEntryKey
  assetMint : Pubkey
  tokenAccount : Pubkey
  amount : ℕ
  deriving DecidableEq

/-- A strategist's policy; `executing` is set while a managed call runs under it. -/
structure StrategyPolicy where
  vault : Pubkey
  strategist : Pubkey
  merkleRoot : BitVec 256
  version : ℕ
  paused : Bool
  executing : Bool
  deriving DecidableEq

/-- The fields of a policy an update changes. -/
structure StrategyPolicyUpdateArgs where
  merkleRoot : BitVec 256
  paused : Bool
  deriving DecidableEq

/-- A queued update; the policy it is for is named by its strategist. -/
structure PendingStrategyPolicyUpdate where
  vault : Pubkey
  strategyPolicy : Pubkey
  queuedBy : Pubkey
  createdSlot : ℕ
  etaSlot : ℕ
  expectedVersion : ℕ
  args : StrategyPolicyUpdateArgs
  deriving DecidableEq

/-- The state of a vault with its venues and policies. -/
structure ManagedState where
  core : VaultState
  programId : Pubkey
  venueEntries : VenueEntryKey → Option VenueEntry
  vaultVenues : VenueEntryKey → Option VaultVenue
  positions : Store (VenueEntryKey × Pubkey) Position
  policies : Pubkey → Option StrategyPolicy
  pendingPolicyUpdates : Pubkey → Option PendingStrategyPolicyUpdate

def maxVenueDiscriminators : ℕ := 8

/-! ### Rules -/

namespace Vault

/-- Charge a deployment or a pull of the primary asset to its window. -/
def consumeManagerRollingLimit (v : Vault) (amount currentSlot : ℕ) : Result Vault := do
  let (start, used) ← consumeRollingLimit amount currentSlot v.managerRollingLimit
    v.rollingLimitWindowSlots v.managerWindowStartSlot v.managerWindowAmount
  pure { v with managerWindowStartSlot := start, managerWindowAmount := used }

/-- Charge a withdrawal to its window. -/
def consumeExternalWithdrawRollingLimit (v : Vault) (amount currentSlot : ℕ) : Result Vault := do
  let (start, used) ← consumeRollingLimit amount currentSlot v.externalWithdrawRollingLimit
    v.rollingLimitWindowSlots v.externalWithdrawWindowStartSlot v.externalWithdrawWindowAmount
  pure { v with externalWithdrawWindowStartSlot := start, externalWithdrawWindowAmount := used }

end Vault

/-- A secondary asset has a window of its own, under the vault's limit. -/
def VaultAsset.consumeManagerRollingLimit (va : VaultAsset) (amount currentSlot
    managerRollingLimit rollingLimitWindowSlots : ℕ) : Result VaultAsset := do
  let (start, used) ← Vault.consumeRollingLimit amount currentSlot managerRollingLimit
    rollingLimitWindowSlots va.managerWindowStartSlot va.managerWindowAmount
  pure { va with managerWindowStartSlot := start, managerWindowAmount := used }

namespace VenueEntry

def assertActive (e : VenueEntry) : Result Unit :=
  ensure .venuePaused (e.paused = false)

def assertAuthority (e : VenueEntry) (signer : Pubkey) : Result Unit :=
  ensure .unauthorizedSigner (signer = e.registryAuthority)

/-- The first eight bytes of a managed call are one of the allowed discriminators. -/
def assertInstructionAllowed (e : VenueEntry) (instructionData : List (BitVec 8)) :
    Result Unit := do
  ensure .invalidVenueInstruction (8 ≤ instructionData.length)
  ensure .venueInstructionNotAllowed (instructionData.take 8 ∈ e.allowedDiscriminators)

end VenueEntry

namespace VaultVenue

def assertActive (v : VaultVenue) : Result Unit :=
  ensure .venuePaused (v.paused = false)

def assertManagerAuthorized (v : VaultVenue) (vault : Vault) (signer : Pubkey) : Result Unit :=
  ensure .unauthorizedSigner
    (signer = vault.manager ∨ (signer = vault.hotManager ∧ v.routineSafe = true))

def assertEmpty (v : VaultVenue) : Result Unit :=
  ensure .venuePositionNonZero (v.positionCount = 0)

end VaultVenue

/-- A removed position holds nothing. -/
def Position.assertEmpty (p : Position) : Result Unit :=
  ensure .positionBalanceNonZero (p.amount = 0)

/-- Withdrawals need the extension, switched on. -/
def VaultExtensions.assertExternallyManagedWithdrawalsEnabled (ext : VaultExtensions) :
    Result Unit :=
  ensure .externallyManagedWithdrawalsDisabled (ext.externallyManagedWithdrawals = some true)

/-- The balances a deployment of a secondary asset moves between. -/
structure PositionLedger where
  positionAmount : ℕ
  idleBalance : ℕ
  deployedBalance : ℕ
  deriving DecidableEq

namespace PositionLedger

/-- Move an amount from the idle balance to the position. -/
def deploy (l : PositionLedger) (amount : ℕ) : Result PositionLedger := do
  ensure .insufficientLiquidity (amount ≤ l.idleBalance)
  let positionAmount ← add arithmetic u64 l.positionAmount amount
  let idleBalance ← sub arithmetic l.idleBalance amount
  let deployedBalance ← add arithmetic u64 l.deployedBalance amount
  pure ⟨positionAmount, idleBalance, deployedBalance⟩

/-- Move an amount from the position back to the idle balance. -/
def pull (l : PositionLedger) (amount : ℕ) : Result PositionLedger := do
  ensure .insufficientPositionBalance (amount ≤ l.positionAmount ∧ amount ≤ l.deployedBalance)
  let positionAmount ← sub arithmetic l.positionAmount amount
  let idleBalance ← add arithmetic u64 l.idleBalance amount
  let deployedBalance ← sub arithmetic l.deployedBalance amount
  pure ⟨positionAmount, idleBalance, deployedBalance⟩

end PositionLedger

/-! ### Declared accounts -/

namespace ManagedState

/-- The entry of a venue, which has to be registered. -/
def venueEntry (s : ManagedState) (k : VenueEntryKey) : Result VenueEntry :=
  okOr (.account .accountNotInitialized) (s.venueEntries k)

/-- The vault's approval of a venue entry, with its constraints. -/
def vaultVenue (s : ManagedState) (k : VenueEntryKey) : Result VaultVenue := do
  let v ← okOr (.account .accountNotInitialized) (s.vaultVenues k)
  ensure .invalidVault (v.vault = s.core.key)
  ensure .invalidVenueEntry (v.venueEntry = k)
  pure v

/-- A position and its token account, with their constraints. -/
def position (s : ManagedState) (k : VenueEntryKey) (assetMint tokenAccount : Pubkey) :
    Result (Position × TokenAccount Pubkey) := do
  let p ← okOr (.account .accountNotInitialized) (s.positions.lookup (k, assetMint))
  ensure .invalidVault (p.vault = s.core.key)
  ensure .invalidVenueEntry (p.venueEntry = k)
  ensure .invalidAssetMint (p.assetMint = assetMint)
  let account ← s.core.tokenAccount tokenAccount assetMint s.core.key
  ensure .invalidPosition (p.tokenAccount = tokenAccount)
  pure (p, account)

end ManagedState

/-! ### Registry and approvals -/

/-- The arguments of `register_venue`. -/
structure RegisterVenueArgs where
  venueId : BitVec 256
  targetProgram : Pubkey
  allowedDiscriminators : List (List (BitVec 8))
  routineSafe : Bool

/-- Anyone lists venues, under an authority of their own. -/
def registerVenue (s : ManagedState) (registryAuthority : Pubkey) (args : RegisterVenueArgs) :
    Result ManagedState := do
  s.core.signer registryAuthority
  let key : VenueEntryKey := ⟨registryAuthority, args.venueId⟩
  require (.account .accountInUse) (s.venueEntries key).isNone
  ensure .invalidVenueDiscriminatorCount (0 < args.allowedDiscriminators.length ∧
    args.allowedDiscriminators.length ≤ maxVenueDiscriminators)
  pure { s with venueEntries := update s.venueEntries key (some
    { registryAuthority := registryAuthority
      targetProgram := args.targetProgram
      allowedDiscriminators := args.allowedDiscriminators
      routineSafe := args.routineSafe
      paused := false }) }

/-- The venue's authority pauses or resumes it, for every vault. -/
def setVenueEntryPaused (s : ManagedState) (registryAuthority : Pubkey) (k : VenueEntryKey)
    (paused : Bool) : Result ManagedState := do
  s.core.signer registryAuthority
  let entry ← s.venueEntry k
  entry.assertAuthority registryAuthority
  pure { s with venueEntries := update s.venueEntries k (some { entry with paused := paused }) }

/-- The curator approves a venue and names who receives withdrawals to it. -/
def approveVaultVenue (s : ManagedState) (authority : Pubkey) (k : VenueEntryKey)
    (recipientAuthority : Pubkey) : Result ManagedState := do
  s.core.signer authority
  let entry ← s.venueEntry k
  require (.account .accountInUse) (s.vaultVenues k).isNone
  s.core.vault.assertCurator authority
  ensure .invalidVenueRecipient (recipientAuthority ≠ Pubkey.default)
  ensure .timelockRequired (s.core.vault.timelockDelaySlots = 0)
  entry.assertActive
  pure { s with vaultVenues := update s.vaultVenues k (some
    { vault := s.core.key
      venueEntry := k
      recipientAuthority := recipientAuthority
      targetProgram := entry.targetProgram
      routineSafe := entry.routineSafe
      paused := false
      positionCount := 0 }) }

/-- The curator withdraws the approval of a venue without positions. -/
def removeVaultVenue (s : ManagedState) (authority : Pubkey) (k : VenueEntryKey) :
    Result ManagedState := do
  s.core.signer authority
  let _ ← s.venueEntry k
  let venue ← s.vaultVenue k
  s.core.vault.assertCurator authority
  ensure .timelockRequired (s.core.vault.timelockDelaySlots = 0)
  venue.assertEmpty
  pure { s with vaultVenues := update s.vaultVenues k none }

/-! ### Positions -/

/-- The accounts of the position instructions; `vaultTokenAccount` is the reserve and used
by deployments and pulls only. -/
structure VenuePosition where
  authority : Pubkey
  assetMint : Pubkey
  vaultAsset : Option Pubkey
  venueEntry : VenueEntryKey
  vaultTokenAccount : Pubkey
  positionTokenAccount : Pubkey
  assetTokenProgram : TokenProgram

/-- The curator opens a position: a token account of the vault and an empty ledger. -/
def createVenuePosition (s : ManagedState) (ctx : VenuePosition) : Result ManagedState := do
  s.core.signer ctx.authority
  let _ ← s.core.mintAccount ctx.assetMint
  let entry ← s.venueEntry ctx.venueEntry
  let venue ← s.vaultVenue ctx.venueEntry
  require (.account .accountInUse) (s.positions.lookup (ctx.venueEntry, ctx.assetMint)).isNone
  let token ← cpi (s.core.token.initializeAccount ctx.assetTokenProgram ctx.positionTokenAccount
    ctx.assetMint s.core.key)
  s.core.vault.assertCurator ctx.authority
  ensure .timelockRequired (s.core.vault.timelockDelaySlots = 0)
  checkSupportedAsset s.core ctx.assetMint ctx.vaultAsset
  -- the pause of the registry's entry, and that of the vault's approval
  entry.assertActive
  venue.assertActive
  let count ← add arithmetic u16 venue.positionCount 1
  pure { s with
    core := { s.core with token := token }
    positions := s.positions.insert (ctx.venueEntry, ctx.assetMint)
      { vault := s.core.key
        venueEntry := ctx.venueEntry
        assetMint := ctx.assetMint
        tokenAccount := ctx.positionTokenAccount
        amount := 0 }
    vaultVenues := update s.vaultVenues ctx.venueEntry
      (some { venue with positionCount := count }) }

/-- The checks deployments and pulls start with; returns the position, its balance and the
reserve's. -/
def positionChecks (s : ManagedState) (ctx : VenuePosition) : Result (Position × ℕ × ℕ) := do
  s.core.signer ctx.authority
  let assetMint ← s.core.mintAccount ctx.assetMint
  let entry ← s.venueEntry ctx.venueEntry
  let venue ← s.vaultVenue ctx.venueEntry
  let reserve ← s.core.tokenAccount ctx.vaultTokenAccount ctx.assetMint s.core.key
  let (position, account) ← s.position ctx.venueEntry ctx.assetMint ctx.positionTokenAccount
  VaultState.tokenProgram assetMint ctx.assetTokenProgram
  s.core.vault.assertUnpausedAndInitialized
  venue.assertManagerAuthorized s.core.vault ctx.authority
  entry.assertActive
  venue.assertActive
  pure (position, account.amount, reserve.amount)

/-- Charge a movement of `amount` to the manager limit.  For a secondary asset the balances
move with `move`, once `available` covers the amount. -/
def accountMovement (s : ManagedState) (ctx : VenuePosition) (p : Position) (amount : ℕ)
    (unavailable : AsyncVaultError) (available : VaultAsset → ℕ)
    (move : PositionLedger → Result PositionLedger) :
    Result (VaultState × Option PositionLedger) :=
  if s.core.vault.isPrimaryAsset ctx.assetMint then do
    -- the vault keeps no idle and deployed balances of its primary asset
    ensure .invalidVault (s.core.vault.vaultTokenAccount = ctx.vaultTokenAccount)
    let vault ← s.core.vault.consumeManagerRollingLimit amount s.core.clock.slot
    pure ({ s.core with vault := vault }, none)
  else do
    let m ← okOr (.async .invalidAssetMint) ctx.vaultAsset
    let va ← s.core.secondaryAsset (some m) ctx.assetMint
    va.assertReserve ctx.vaultTokenAccount
    ensure unavailable (amount ≤ available va)
    let va ← va.consumeManagerRollingLimit amount s.core.clock.slot
      s.core.vault.managerRollingLimit s.core.vault.rollingLimitWindowSlots
    let ledger ← move ⟨p.amount, va.idleBalance, va.deployedBalance⟩
    pure ({ s.core with vaultAssets := update s.core.vaultAssets m (some
      { va with
        idleBalance := ledger.idleBalance
        deployedBalance := ledger.deployedBalance }) }, some ledger)

/-- The two balances after a transfer are exactly the expected ones. -/
def checkBalanceDelta (token : Ledger Pubkey) (ctx : VenuePosition)
    (expectedVaultAfter expectedPositionAfter : ℕ) : Result Unit :=
  ensure .invalidBalanceDelta (token.balance ctx.vaultTokenAccount = expectedVaultAfter ∧
    token.balance ctx.positionTokenAccount = expectedPositionAfter)

/-- A manager moves assets from the reserve to a position. -/
def deployVenuePosition (s : ManagedState) (ctx : VenuePosition) (amount : ℕ) :
    Result ManagedState := do
  let (position, positionBefore, vaultBefore) ← positionChecks s ctx
  let (core, ledger) ← accountMovement s ctx position amount .insufficientLiquidity
    VaultAsset.idleBalance (PositionLedger.deploy · amount)
  let token ← cpi (core.token.transferChecked ctx.assetTokenProgram ctx.vaultTokenAccount
    ctx.assetMint ctx.positionTokenAccount core.key amount)
  -- a transfer that takes a fee changes the balances otherwise and is refused
  let expectedVaultAfter ← sub arithmetic vaultBefore amount
  let expectedPositionAfter ← add arithmetic u64 positionBefore amount
  checkBalanceDelta token ctx expectedVaultAfter expectedPositionAfter
  let positionAmount ←
    (match ledger with
    | some ledger => pure ledger.positionAmount
    | none => add arithmetic u64 position.amount amount : Result ℕ)
  pure { s with
    core := { core with token := token }
    positions := s.positions.insert (ctx.venueEntry, ctx.assetMint)
      { position with amount := positionAmount } }

/-- A manager moves assets from a position back to the reserve. -/
def pullVenuePosition (s : ManagedState) (ctx : VenuePosition) (amount : ℕ) :
    Result ManagedState := do
  let (position, positionBefore, vaultBefore) ← positionChecks s ctx
  ensure .insufficientPositionBalance (amount ≤ position.amount)
  let (core, ledger) ← accountMovement s ctx position amount .insufficientPositionBalance
    VaultAsset.deployedBalance (PositionLedger.pull · amount)
  let token ← cpi (core.token.transferChecked ctx.assetTokenProgram ctx.positionTokenAccount
    ctx.assetMint ctx.vaultTokenAccount core.key amount)
  let expectedVaultAfter ← add arithmetic u64 vaultBefore amount
  let expectedPositionAfter ← sub arithmetic positionBefore amount
  checkBalanceDelta token ctx expectedVaultAfter expectedPositionAfter
  let positionAmount ←
    (match ledger with
    | some ledger => pure ledger.positionAmount
    | none => sub arithmetic position.amount amount : Result ℕ)
  pure { s with
    core := { core with token := token }
    positions := s.positions.insert (ctx.venueEntry, ctx.assetMint)
      { position with amount := positionAmount } }

/-- The curator removes an empty position and closes its token account. -/
def removeVenuePosition (s : ManagedState) (ctx : VenuePosition) : Result ManagedState := do
  s.core.signer ctx.authority
  let assetMint ← s.core.mintAccount ctx.assetMint
  let _ ← s.venueEntry ctx.venueEntry
  let venue ← s.vaultVenue ctx.venueEntry
  let (position, account) ← s.position ctx.venueEntry ctx.assetMint ctx.positionTokenAccount
  VaultState.tokenProgram assetMint ctx.assetTokenProgram
  s.core.vault.assertCurator ctx.authority
  ensure .timelockRequired (s.core.vault.timelockDelaySlots = 0)
  checkSupportedAsset s.core ctx.assetMint ctx.vaultAsset
  -- its ledger and its account, which anyone can add to
  position.assertEmpty
  ensure .positionBalanceNonZero (account.amount = 0)
  let count ← sub arithmetic venue.positionCount 1
  let token ← cpi (s.core.token.closeAccount ctx.positionTokenAccount s.core.key)
  pure { s with
    core := { s.core with token := token }
    positions := s.positions.erase (ctx.venueEntry, ctx.assetMint)
    vaultVenues := update s.vaultVenues ctx.venueEntry
      (some { venue with positionCount := count }) }

/-! ### External withdrawals -/

/-- The accounts of `withdraw_assets`. -/
structure WithdrawAssets where
  authority : Pubkey
  assetMint : Pubkey
  venueEntry : VenueEntryKey
  vaultTokenAccount : Pubkey
  recipientTokenAccount : Pubkey
  assetTokenProgram : TokenProgram

/-- The assets leave the vault's custody; its asset balance still counts them. -/
def withdrawAssets (s : ManagedState) (ctx : WithdrawAssets) (amount : ℕ) :
    Result ManagedState := do
  s.core.signer ctx.authority
  let assetMint ← s.core.mintAccount ctx.assetMint
  ensure .invalidAssetMint (s.core.vault.assetMint = ctx.assetMint)
  ensure .unauthorizedSigner (ctx.authority = s.core.vault.curator)
  let entry ← s.venueEntry ctx.venueEntry
  let venue ← s.vaultVenue ctx.venueEntry
  let _ ← s.core.tokenAccount ctx.vaultTokenAccount ctx.assetMint s.core.key
  VaultState.tokenProgram assetMint ctx.assetTokenProgram
  require (.account .constraintRaw) (s.core.vault.vaultTokenAccount = ctx.vaultTokenAccount)
  let recipient ← okOr (.account .accountNotInitialized)
    (s.core.token.accounts ctx.recipientTokenAccount)
  require (.account .tokenMint) (recipient.mint = ctx.assetMint)
  ensure .invalidVenueRecipient (recipient.owner = venue.recipientAuthority)
  s.core.vault.assertUnpausedAndInitialized
  s.core.extensions.assertExternallyManagedWithdrawalsEnabled
  entry.assertActive
  venue.assertActive
  let vault ← s.core.vault.consumeExternalWithdrawRollingLimit amount s.core.clock.slot
  let token ← cpi (s.core.token.transferChecked ctx.assetTokenProgram ctx.vaultTokenAccount
    ctx.assetMint ctx.recipientTokenAccount s.core.key amount)
  pure { s with core := { s.core with vault := vault, token := token } }

end AsyncVault
