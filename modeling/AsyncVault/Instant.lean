/-
AsyncVault/Instant.lean

Instant settlement of the primary asset on a plain vault.

Deposits and redemptions settled in one instruction at the vault NAV, without a
request.  Each user may have a rolling bucket per direction; its account is
created on first use (`loadOrInitInstantUser`).
-/
import AsyncVault.Approval

namespace AsyncVault

open Checked TokenLedger Function

/-- The per-user bucket, created empty when it does not exist yet. -/
def loadOrInitInstantUser (s : VaultState) (instantUser : Option AccountInfo) (user : Pubkey) :
    Result InstantSettlementUser := do
  let info ← required instantUser
  ensure .missingRequiredAccount info.isWritable
  let account := (s.instantUsers user).getD InstantSettlementUser.zeroed
  account.ensureInitialized s.key user

structure InstantDeposit where
  user : Pubkey
  assetMint : Pubkey
  shareMint : Pubkey
  instantUser : Option AccountInfo
  vaultTokenAccount : Pubkey
  userAssetAccount : Pubkey
  userShareAccount : Pubkey
  feeRecipientTokenAccount : Option Pubkey
  protocolFeeRecipientTokenAccount : Option Pubkey
  assetTokenProgram : TokenProgram
  shareTokenProgram : TokenProgram

/-- The checks both instant instructions start with. -/
def instantChecks (s : VaultState) (user assetMint shareMint vaultTokenAccount userAssetAccount
    userShareAccount : Pubkey) (assetTokenProgram shareTokenProgram : TokenProgram) :
    Result (Mint Pubkey × Mint Pubkey × InstantSettlement) := do
  s.signer user
  let asset ← s.mintAccount assetMint
  let share ← s.mintAccount shareMint
  ensure .invalidAssetMint (s.vault.assetMint = assetMint)
  ensure .invalidShareMint (s.vault.shareMint = shareMint)
  let _ ← s.tokenAccount vaultTokenAccount assetMint s.key
  ensure .invalidVault (s.vault.vaultTokenAccount = vaultTokenAccount)
  let _ ← s.tokenAccount userAssetAccount assetMint user
  let _ ← s.tokenAccount userShareAccount shareMint user
  VaultState.tokenProgram asset assetTokenProgram
  VaultState.tokenProgram share shareTokenProgram
  s.vault.assertUnpausedAndInitialized
  ensure .unsupportedPhaseConfig (s.vault.trancheConfig = none)
  let inst ← s.extensions.assertInstantSettlementEnabled
  assertInstantSettlementSafetyGuards s.vault.instantRedemptionFeeBps
    s.vault.maxNavStalenessSlots
  pure (asset, share, inst)

/-- Pay a fee of an instant settlement: both recipients' accounts are declared
accounts here, the protocol's checked against the resolved recipient. -/
def payInstantFee (s : VaultState) (token : Ledger Pubkey) (program : TokenProgram)
    (src mint authority : Pubkey) (fee : ℕ) (feeRecipientAccount protocolAccount : Option Pubkey)
    (remaining : List AccountInfo) : Result (Ledger Pubkey) := do
  let (protocolFee, feeRecipientFee) ← splitProtocolFee fee s.vault.protocolFeeBps
  let token ←
    (if 0 < feeRecipientFee then do
      let account ← okOr (.async .missingFeeRecipient) feeRecipientAccount
      let _ ← s.tokenAccount account mint s.vault.feeRecipient
      cpi (token.transferChecked program src mint account authority feeRecipientFee)
    else
      pure token)
  if 0 < protocolFee then do
    let (recipient, _) ← s.resolveProtocolFeeRecipient remaining.head?
    let account ← okOr (.async .missingFeeRecipient) protocolAccount
    let _ ← s.tokenAccount account mint recipient
    cpi (token.transferChecked program src mint account authority protocolFee)
  else
    pure token

def instantDeposit (s : VaultState) (ctx : InstantDeposit) (amount : ℕ)
    (remaining : List AccountInfo) : Result VaultState := do
  let (asset, share, inst) ← instantChecks s ctx.user ctx.assetMint ctx.shareMint
    ctx.vaultTokenAccount ctx.userAssetAccount ctx.userShareAccount ctx.assetTokenProgram
    ctx.shareTokenProgram
  inst.assertDepositAmount amount
  validateAssetMintExtensions asset
  ensure .navIsNotSet (0 < s.vault.nav)
  s.vault.assertNavNotStale s.clock.slot
  let instantUsers ←
    (if inst.maxUserDepositAmount ≠ 0 then do
      let u ← loadOrInitInstantUser s ctx.instantUser ctx.user
      let u ← u.consumeDepositLimit amount s.clock.slot inst.maxUserDepositAmount
        s.vault.rollingLimitWindowSlots
      pure (update s.instantUsers ctx.user (some u))
    else
      pure s.instantUsers)
  s.vault.assertDepositCapAllows amount
  let (depositFee, netDeposit) ← getDepositFeeAndNet s.extensions amount
  ensure .insufficientDepositAmount (0 < netDeposit)
  let shares ← calculateShares s.vault.nav share.decimals netDeposit
  ensure .insufficientDepositAmount (0 < shares)
  let token ← payInstantFee s s.token ctx.assetTokenProgram ctx.userAssetAccount ctx.assetMint
    ctx.user depositFee ctx.feeRecipientTokenAccount ctx.protocolFeeRecipientTokenAccount remaining
  let token ← cpi (token.transferChecked ctx.assetTokenProgram ctx.userAssetAccount ctx.assetMint
    ctx.vaultTokenAccount ctx.user netDeposit)
  let token ← cpi (token.mintTo ctx.shareTokenProgram ctx.shareMint ctx.userShareAccount s.key
    shares)
  let total ← add arithmetic u64 s.vault.totalAssetBalance netDeposit
  pure { s with
    instantUsers := instantUsers
    token := token
    vault := { s.vault with totalAssetBalance := total } }

structure InstantRedeem where
  user : Pubkey
  assetMint : Pubkey
  shareMint : Pubkey
  instantUser : Option AccountInfo
  vaultTokenAccount : Pubkey
  userShareAccount : Pubkey
  userAssetAccount : Pubkey
  feeRecipientTokenAccount : Option Pubkey
  protocolFeeRecipientTokenAccount : Option Pubkey
  assetTokenProgram : TokenProgram
  shareTokenProgram : TokenProgram

/-- The instant-redemption fee; zero disables it. -/
def instantRedemptionFee (bps grossAssets : ℕ) : Result ℕ :=
  if bps = 0 then pure 0 else (FeeType.percentage bps).getFee grossAssets

def instantRedeem (s : VaultState) (ctx : InstantRedeem) (shares : ℕ)
    (remaining : List AccountInfo) : Result VaultState := do
  let (asset, share, inst) ← instantChecks s ctx.user ctx.assetMint ctx.shareMint
    ctx.vaultTokenAccount ctx.userAssetAccount ctx.userShareAccount ctx.assetTokenProgram
    ctx.shareTokenProgram
  inst.assertRedeemShares shares
  validateAssetMintExtensions asset
  ensure .navIsNotSet (0 < s.vault.nav)
  s.vault.assertNavNotStale s.clock.slot
  let instantUsers ←
    (if inst.maxUserRedeemShares ≠ 0 then do
      let u ← loadOrInitInstantUser s ctx.instantUser ctx.user
      let u ← u.consumeRedeemLimit shares s.clock.slot inst.maxUserRedeemShares
        s.vault.rollingLimitWindowSlots
      pure (update s.instantUsers ctx.user (some u))
    else
      pure s.instantUsers)
  let grossAssets ← calculateAssets s.vault.nav share.decimals shares
  ensure .insufficientLiquidity (grossAssets ≤ s.token.balance ctx.vaultTokenAccount)
  let withdrawalFee ← getWithdrawalFee s.extensions grossAssets
  let instantFee ← instantRedemptionFee s.vault.instantRedemptionFeeBps grossAssets
  let totalFee ← add arithmetic u64 withdrawalFee instantFee
  let netAssets ← sub arithmetic grossAssets totalFee
  ensure .insufficientRedeemAmount (0 < netAssets)
  let vault ← s.vault.consumeRedemptionRollingLimit grossAssets s.clock.slot
  let token ← cpi (s.token.burn ctx.shareTokenProgram ctx.userShareAccount ctx.shareMint ctx.user
    shares)
  let token ← payInstantFee s token ctx.assetTokenProgram ctx.vaultTokenAccount ctx.assetMint
    s.key totalFee ctx.feeRecipientTokenAccount ctx.protocolFeeRecipientTokenAccount remaining
  let token ← cpi (token.transferChecked ctx.assetTokenProgram ctx.vaultTokenAccount ctx.assetMint
    ctx.userAssetAccount s.key netAssets)
  let total ← sub arithmetic vault.totalAssetBalance grossAssets
  pure { s with
    instantUsers := instantUsers
    token := token
    vault := { vault with totalAssetBalance := total } }

end AsyncVault
