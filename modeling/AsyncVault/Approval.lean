/-
AsyncVault/Approval.lean

Approval of a request at the current NAV.

The fulfiller approves a pending request: a deposit is converted to shares and
its assets move from the pending vault into the reserve, a redemption is
converted to assets, which move from the reserve into the pending vault.  Fees
leave on the way.  The request then carries the claimable amount.

Only primary-asset requests can be approved; the source validates the accounts
of a secondary-asset request and then refuses it with `UnsupportedPhaseConfig`,
so the branches it keeps for secondary assets after that point are unreachable
and are not modelled.
-/
import AsyncVault.Requests

namespace AsyncVault

open Checked TokenLedger KeyedStore

structure ApproveRequest where
  authority : Pubkey
  assetMint : Pubkey
  shareMint : Pubkey
  vaultAsset : Option Pubkey
  request : Pubkey
  vaultTokenAccount : Pubkey
  pendingVault : Pubkey
  assetTokenProgram : TokenProgram

/-! ### Fees of a settlement -/

/-- The account of the vault's fee recipient, first of the remaining accounts
when its part of the fee is positive. -/
def feeRecipientAccount (s : VaultState) (feeRecipientFee : ℕ) (remaining : List AccountInfo) :
    Result (Option AccountInfo × List AccountInfo) :=
  if 0 < feeRecipientFee then do
    let info ← okOr (.async .missingFeeRecipient) remaining.head?
    s.validateTokenAccountOwner info s.vault.feeRecipient
    pure (some info, remaining.tail)
  else
    pure (none, remaining)

/-- The account of the protocol's fee recipient, next when the protocol's part
is positive; the program-wide configuration may precede it. -/
def protocolFeeAccount (s : VaultState) (protocolFee : ℕ) (remaining : List AccountInfo) :
    Result (Option AccountInfo) :=
  if 0 < protocolFee then do
    let (recipient, consumed) ← s.resolveProtocolFeeRecipient remaining.head?
    let remaining := if consumed then remaining.tail else remaining
    let info ← okOr (.async .missingFeeRecipient) remaining.head?
    s.validateTokenAccountOwner info recipient
    pure (some info)
  else
    pure none

/-- Pay one part of a fee out of `src`. -/
def payFee (token : Ledger Pubkey) (program : TokenProgram) (src mint : Pubkey)
    (account : Option AccountInfo) (authority : Pubkey) (amount : ℕ) :
    Result (Ledger Pubkey) :=
  match account with
  | none => pure token
  | some info => VaultState.transferToInfo token program src mint info authority amount

/-- Split a settlement fee, find the two accounts, and pay both parts out of the
vault-owned account `src`. -/
def paySettlementFee (s : VaultState) (program : TokenProgram) (src mint : Pubkey) (fee : ℕ)
    (remaining : List AccountInfo) : Result (Ledger Pubkey) := do
  let (protocolFee, feeRecipientFee) ← splitProtocolFee fee s.vault.protocolFeeBps
  let (feeAccount, remaining) ← feeRecipientAccount s feeRecipientFee remaining
  let protocolAccount ← protocolFeeAccount s protocolFee remaining
  let token ← payFee s.token program src mint feeAccount s.key feeRecipientFee
  payFee token program src mint protocolAccount s.key protocolFee

/-! ### The two settlements -/

/-- A settled request: the state with the tokens moved, what the owner may
claim, and by how much the vault's assets change. -/
structure Settlement where
  state : VaultState
  claimableAmount : ℕ
  balanceDelta : ℕ

def settleDeposit (s : VaultState) (ctx : ApproveRequest) (context : RequestShareMintContext)
    (r : Request) (nav : ℕ) (shareMint : Mint Pubkey) (remaining : List AccountInfo) :
    Result Settlement := do
  let (depositFee, netDeposit) ← getDepositFeeAndNet s.extensions r.amount
  ensure .insufficientDepositAmount (0 < netDeposit)
  let shares ← calculateShares nav shareMint.decimals netDeposit
  ensure .insufficientDepositAmount (0 < shares)
  let rest ← maybeEnforceJuniorRatioFloor s ctx.shareMint .deposit shares context.trancheInfo
    (remaining.drop context.consumedAccounts)
  let s ← updateTrancheSupplyCache s ctx.shareMint .deposit shares shareMint.supply
    context.trancheInfo remaining.head?
  let token ← paySettlementFee s ctx.assetTokenProgram ctx.pendingVault ctx.assetMint depositFee
    rest
  let token ← cpi (token.transferChecked ctx.assetTokenProgram ctx.pendingVault ctx.assetMint
    ctx.vaultTokenAccount s.key netDeposit)
  pure ⟨{ s with token := token }, shares, netDeposit⟩

def settleRedeem (s : VaultState) (ctx : ApproveRequest) (context : RequestShareMintContext)
    (r : Request) (nav : ℕ) (shareMint : Mint Pubkey) (remaining : List AccountInfo) :
    Result Settlement := do
  let assets ← calculateAssets nav shareMint.decimals r.amount
  let rest ← maybeEnforceJuniorRatioFloor s ctx.shareMint .redeem r.amount context.trancheInfo
    (remaining.drop context.consumedAccounts)
  let s ← updateTrancheSupplyCache s ctx.shareMint .redeem r.amount shareMint.supply
    context.trancheInfo remaining.head?
  let (withdrawFee, netAssets) ← getWithdrawalFeeAndNet s.extensions assets
  let vault ← s.vault.consumeRedemptionRollingLimit assets s.clock.slot
  let s := { s with vault := vault }
  let token ← paySettlementFee s ctx.assetTokenProgram ctx.vaultTokenAccount ctx.assetMint
    withdrawFee rest
  let token ← cpi (token.transferChecked ctx.assetTokenProgram ctx.vaultTokenAccount
    ctx.assetMint ctx.pendingVault s.key netAssets)
  pure ⟨{ s with token := token }, netAssets, assets⟩

/-- Credit a settled deposit to the vault, within the cap, and release its
reservation. -/
def creditDeposit (v : Vault) (balanceDelta originalAmount : ℕ) : Result Vault := do
  if 0 < v.depositCap then do
    let cappedTotal ← add arithmetic u64 v.totalAssetBalance balanceDelta
    ensure .depositCapExceeded (cappedTotal ≤ v.depositCap)
  let total ← add arithmetic u64 v.totalAssetBalance balanceDelta
  let pending ← sub arithmetic v.pendingDepositAmount originalAmount
  pure { v with totalAssetBalance := total, pendingDepositAmount := pending }

/-- Debit a settled redemption from the vault. -/
def debitRedeem (v : Vault) (balanceDelta : ℕ) : Result Vault := do
  let total ← sub arithmetic v.totalAssetBalance balanceDelta
  pure { v with totalAssetBalance := total }

/-! ### The instruction -/

/-- The reserve and the pending vault of an approval are the vault's own. -/
def checkSettlementAccounts (s : VaultState) (ctx : ApproveRequest) : Result Unit :=
  if s.vault.isPrimaryAsset ctx.assetMint then do
    ensure .invalidVault (s.vault.vaultTokenAccount = ctx.vaultTokenAccount)
    ensure .invalidPendingVault (s.vault.pendingVault = ctx.pendingVault)
  else do
    let va ← s.secondaryAsset ctx.vaultAsset ctx.assetMint
    va.assertReserve ctx.vaultTokenAccount
    va.assertPendingVault ctx.pendingVault
    .error (.async .unsupportedPhaseConfig)

/-- What an approval checks before it looks at NAV and queue; returns the
request, the share mint and the tranche context. -/
def approvalChecks (s : VaultState) (ctx : ApproveRequest) (args : ApproveRequestArgs)
    (remaining : List AccountInfo) :
    Result (Request × Mint Pubkey × RequestShareMintContext) := do
  s.signer ctx.authority
  let assetMint ← s.mintAccount ctx.assetMint
  let shareMint ← s.mintAccount ctx.shareMint
  let r ← s.requestAccount ctx.request
  let _ ← s.tokenAccount ctx.vaultTokenAccount ctx.assetMint s.key
  let _ ← s.tokenAccount ctx.pendingVault ctx.assetMint s.key
  VaultState.tokenProgram assetMint ctx.assetTokenProgram
  s.vault.assertUnpausedAndInitialized
  s.vault.assertCuratorOrFulfiller ctx.authority
  validateAssetMintExtensions assetMint
  ensure .requestNotPending (r.requestState = .pending)
  ensure .approvalRequestMismatch (args.Matches r)
  ensure .invalidAssetMint (r.assetMintAddress = ctx.assetMint)
  ensure .invalidShareMint (r.shareMintAddress = ctx.shareMint)
  let context ← validateRequestShareMint s ctx.shareMint remaining
  checkSettlementAccounts s ctx
  pure (r, shareMint, context)

def approveRequest (s : VaultState) (ctx : ApproveRequest) (args : ApproveRequestArgs)
    (remaining : List AccountInfo) : Result VaultState := do
  let (r, shareMint, context) ← approvalChecks s ctx args remaining
  ensure .navIsNotSet (0 < s.vault.nav)
  s.vault.assertFreshNavForRequest r.navUpdateVersion
  s.vault.assertNavNotStale s.clock.slot
  let nav := settlementNav context.trancheNav s.vault.nav
  let s ← advanceQueue s context ctx.shareMint r remaining
  let settled ←
    (match r.requestType with
    | .deposit => settleDeposit s ctx context r nav shareMint remaining
    | .redeem => settleRedeem s ctx context r nav shareMint remaining)
  let s := settled.state
  let vault ←
    (match r.requestType with
    | .deposit => creditDeposit s.vault settled.balanceDelta r.amount
    | .redeem => debitRedeem s.vault settled.balanceDelta)
  let s := { s with
    vault := vault
    requests := s.requests.insert ctx.request
      { r with amount := settled.claimableAmount, price := nav, requestState := .claimable } }
  decrementPendingRequests s

end AsyncVault
