/-
AsyncVault/Nav.lean

The NAV update.

The curator or fulfiller posts a new NAV.  The update is checked against the
configured guards, may crystallise a performance fee in newly minted shares
(plain vaults), runs the tranche waterfall (tranche vaults), and is then
recorded on the vault.
-/
import AsyncVault.Instant

namespace AsyncVault

open Checked TokenLedger

/-- The accounts of a performance-fee crystallisation, in the order they come
among the remaining accounts, and the accounts left after them. -/
structure PerformanceFeeAccounts where
  shareMint : AccountInfo
  feeRecipient : AccountInfo
  protocol : Option (Pubkey × AccountInfo)
  shareTokenProgram : AccountInfo
  rest : List AccountInfo

def performanceFeeAccounts (s : VaultState) (remaining : List AccountInfo) :
    Result PerformanceFeeAccounts := do
  let shareMint ← required remaining[0]?
  let feeRecipient ← required remaining[1]?
  if 0 < s.vault.protocolFeeBps then do
    let (recipient, consumed) ← s.resolveProtocolFeeRecipient remaining[2]?
    let next := if consumed then 3 else 2
    let account ← required remaining[next]?
    let program ← required remaining[next + 1]?
    pure ⟨shareMint, feeRecipient, some (recipient, account), program, remaining.drop (next + 2)⟩
  else do
    let program ← required remaining[2]?
    pure ⟨shareMint, feeRecipient, none, program, remaining.drop 3⟩

/-- A mint to a remaining account, which must be a token account. -/
def mintToInfo (token : Ledger Pubkey) (program : TokenProgram) (mint : Pubkey)
    (info : AccountInfo) (authority : Pubkey) (amount : ℕ) : Result (Ledger Pubkey) := do
  require (.token .uninitializedState) info.rawData.isNone
  cpi (token.mintTo program mint info.key authority amount)

/-- The protocol's account, when there is one, takes shares for its recipient. -/
def validateProtocolAccount (s : VaultState) : Option (Pubkey × AccountInfo) → Result Unit
  | none => pure ()
  | some (recipient, account) =>
    s.validateTokenAccountMintAndOwner account s.vault.shareMint recipient

/-- Mint the performance-fee shares: the fee recipient's part, then the
protocol's. -/
def mintPerformanceFee (s : VaultState) (program : TokenProgram)
    (accounts : PerformanceFeeAccounts) (feeShares : ℕ) : Result (Ledger Pubkey) := do
  let (protocolFeeShares, feeRecipientShares) ← splitProtocolFee feeShares s.vault.protocolFeeBps
  validateProtocolAccount s accounts.protocol
  let token ←
    (if 0 < feeRecipientShares then
      mintToInfo s.token program s.vault.shareMint accounts.feeRecipient s.key feeRecipientShares
    else
      pure s.token)
  if 0 < protocolFeeShares then do
    let (_, account) ← required accounts.protocol
    mintToInfo token program s.vault.shareMint account s.key protocolFeeShares
  else
    pure token

/-- Whether the crystallisation interval holds the fee back: the high-water mark
is passed and a fee is due, but too little time has gone by. -/
def crystallizationHeldBack (v : Vault) (timestamp : ℤ) : Result Bool :=
  if 0 < v.performanceFeeBps ∧ 0 < v.highWaterMark ∧
      0 < v.performanceFeeCrystallizationIntervalSeconds then do
    let elapsedSeconds ← subInt arithmetic i64 timestamp v.lastFeeCrystallizationTimestamp
    -- a negative elapsed time counts as none
    pure (decide (elapsedSeconds.toNat < v.performanceFeeCrystallizationIntervalSeconds))
  else
    pure false

/-- Charge the performance fee on a NAV above the high-water mark.  Returns the
state and the remaining accounts the fee did not consume. -/
def maybeCrystallizePerformanceFee (s : VaultState) (updatedNav : ℕ)
    (remaining : List AccountInfo) : Result (VaultState × List AccountInfo) := do
  if updatedNav ≤ s.vault.highWaterMark then
    return (s, remaining)
  let heldBack ← crystallizationHeldBack s.vault s.clock.unixTimestamp
  if heldBack then
    return (s, remaining)
  let previousHighWaterMark := s.vault.highWaterMark
  let s := { s with vault := { s.vault with
    highWaterMark := updatedNav
    lastFeeCrystallizationTimestamp := s.clock.unixTimestamp } }
  if s.vault.performanceFeeBps = 0 ∨ previousHighWaterMark = 0 then
    return (s, remaining)
  let accounts ← performanceFeeAccounts s remaining
  let program ← okOr (.async .invalidShareMint)
    (s.tokenProgramIds.program accounts.shareTokenProgram.key)
  ensure .invalidShareMint (accounts.shareMint.key = s.vault.shareMint)
  let shareMint ← s.tokenMintInfo accounts.shareMint
  ensure .invalidShareMint (shareMint.program = program)
  s.validateTokenAccountMintAndOwner accounts.feeRecipient s.vault.shareMint s.vault.feeRecipient
  let feeShares ← calculatePerformanceFeeShares updatedNav previousHighWaterMark
    s.vault.performanceFeeBps shareMint.supply shareMint.decimals
  if feeShares = 0 then
    return (s, accounts.rest)
  let token ← mintPerformanceFee s program accounts feeShares
  return ({ s with token := token }, accounts.rest)

/-- Run the waterfall on a tranche vault, at the effective supplies: the larger
of live and cached. -/
def maybeApplyTrancheWaterfall (s : VaultState) (updatedNav : ℕ)
    (remaining : List AccountInfo) : Result VaultState :=
  match s.vault.trancheConfig with
  | none => pure s
  | some expected => do
    let tcInfo ← required remaining[0]?
    let seniorInfo ← required remaining[1]?
    let juniorInfo ← required remaining[2]?
    ensure .missingRequiredAccount tcInfo.isWritable
    ensure .invalidVault (tcInfo.key = expected)
    ensure .invalidVault (expected = s.trancheConfigPda)
    let tc ← s.loadTrancheConfig tcInfo
    ensure .invalidVault (tc.vault = s.key)
    ensure .invalidShareMint (tc.seniorShareMint = seniorInfo.key)
    ensure .invalidShareMint (tc.juniorShareMint = juniorInfo.key)
    let senior ← s.tokenMintInfo seniorInfo
    let junior ← s.tokenMintInfo juniorInfo
    let tc ← applyTrancheWaterfall tc updatedNav s.clock.slot s.clock.unixTimestamp
      ⟨max senior.supply tc.seniorSupply, senior.decimals⟩
      ⟨max junior.supply tc.juniorSupply, junior.decimals⟩
    pure { s with trancheConfig := some tc }

def updateVaultNav (s : VaultState) (authority : Pubkey)
    (updatedNav : ℕ) (remaining : List AccountInfo) : Result VaultState := do
  s.signer authority
  s.vault.assertCuratorOrFulfiller authority
  s.vault.validateNavUpdate updatedNav s.clock.unixTimestamp
  let (s, remaining) ← maybeCrystallizePerformanceFee s updatedNav remaining
  let s ← maybeApplyTrancheWaterfall s updatedNav remaining
  let navVersion ← add arithmetic u64 s.vault.navVersion 1
  pure { s with vault := { s.vault with
    nav := updatedNav
    navVersion := navVersion
    lastNavUpdateSlot := s.clock.slot
    lastNavUpdateTimestamp := s.clock.unixTimestamp } }

end AsyncVault
