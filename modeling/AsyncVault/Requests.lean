/-
AsyncVault/Requests.lean

The life of a request apart from its approval.

A user opens a deposit request (assets move into the pending vault) or a redeem
request (shares are burned).  Until it is approved the user can cancel it and
the fulfiller can reject it, either of which returns exactly what was taken and
closes the account; a queued request is cancelled through its own instruction,
which returns what was taken but leaves the account as a tombstone until the
queue has skipped it.  An approved request is claimed by its owner or operator.

The declared accounts of each instruction are the fields of a structure under
the source's name; a token-program field is the program the caller passes.
Closing a request account erases it; the rent it releases is not modelled.
-/
import AsyncVault.ShareMint

namespace AsyncVault

open Checked TokenLedger KeyedStore Function

/-! ### Deposit reservations -/

/-- Add to the reservation of a pending deposit: on the vault for the primary
asset, on the `VaultAsset` account otherwise. -/
def addPendingDeposit (s : VaultState) (assetMint : Pubkey) (vaultAsset : Option Pubkey)
    (amount : ℕ) : Result VaultState :=
  if s.vault.isPrimaryAsset assetMint then do
    let pending ← add arithmetic u64 s.vault.pendingDepositAmount amount
    pure { s with vault := { s.vault with pendingDepositAmount := pending } }
  else do
    let m ← okOr (.async .invalidAssetMint) vaultAsset
    let va ← okOr (.account .accountNotInitialized) (s.vaultAssets m)
    let pending ← add arithmetic u64 va.pendingDepositAmount amount
    pure { s with
      vaultAssets := update s.vaultAssets m (some { va with pendingDepositAmount := pending }) }

/-- Release the reservation of a pending deposit. -/
def subPendingDeposit (s : VaultState) (assetMint : Pubkey) (vaultAsset : Option Pubkey)
    (amount : ℕ) : Result VaultState :=
  if s.vault.isPrimaryAsset assetMint then do
    let pending ← sub arithmetic s.vault.pendingDepositAmount amount
    pure { s with vault := { s.vault with pendingDepositAmount := pending } }
  else do
    let m ← okOr (.async .invalidAssetMint) vaultAsset
    let va ← okOr (.account .accountNotInitialized) (s.vaultAssets m)
    let pending ← sub arithmetic va.pendingDepositAmount amount
    pure { s with
      vaultAssets := update s.vaultAssets m (some { va with pendingDepositAmount := pending }) }

/-- The deposit cap of an asset allows a deposit. -/
def checkDepositCap (s : VaultState) (assetMint : Pubkey) (vaultAsset : Option Pubkey)
    (amount : ℕ) : Result Unit :=
  if s.vault.isPrimaryAsset assetMint then
    s.vault.assertDepositCapAllows amount
  else do
    let va ← s.secondaryAsset vaultAsset assetMint
    va.assertDepositCapAllows amount

/-- An asset other than the primary one must be registered. -/
def checkSupportedAsset (s : VaultState) (assetMint : Pubkey) (vaultAsset : Option Pubkey) :
    Result Unit :=
  if s.vault.isPrimaryAsset assetMint then
    pure ()
  else do
    let _ ← s.secondaryAsset vaultAsset assetMint

/-- The pending vault of an asset: the vault's for the primary asset, the
`VaultAsset` account's otherwise. -/
def checkPendingVault (s : VaultState) (assetMint : Pubkey) (vaultAsset : Option Pubkey)
    (pendingVault : Pubkey) : Result Unit :=
  if s.vault.isPrimaryAsset assetMint then
    ensure .invalidPendingVault (s.vault.pendingVault = pendingVault)
  else do
    let va ← s.secondaryAsset vaultAsset assetMint
    va.assertPendingVault pendingVault

/-- Count one more pending request. -/
def incrementPendingRequests (s : VaultState) : Result VaultState := do
  let pending ← add arithmetic u16 s.vault.pendingAsyncRequests 1
  pure { s with vault := { s.vault with pendingAsyncRequests := pending } }

/-- Count one pending request less. -/
def decrementPendingRequests (s : VaultState) : Result VaultState := do
  let pending ← sub arithmetic s.vault.pendingAsyncRequests 1
  pure { s with vault := { s.vault with pendingAsyncRequests := pending } }

/-- Reject asset mints whose token program would withhold a transfer fee. -/
def validateAssetMintExtensions (m : Mint Pubkey) : Result Unit :=
  ensure .invalidAssetMintExtensions (m.epochFeeBps = 0)

/-- Reject share mints that refuse public minting and burning. -/
def validateShareMintExtensions (m : Mint Pubkey) : Result Unit :=
  ensure .invalidShareMintExtensions (m.program = .token ∨ m.confidentialMintBurn = false)

/-! ### Opening -/

structure RequestArgs where
  amount : ℕ
  operator : Option Pubkey

structure CreateDepositRequest where
  user : Pubkey
  assetMint : Pubkey
  shareMint : Pubkey
  vaultAsset : Option Pubkey
  request : Pubkey
  userTokenAccount : Pubkey
  pendingVault : Pubkey
  assetTokenProgram : TokenProgram

def createDepositRequest (s : VaultState) (ctx : CreateDepositRequest) (args : RequestArgs)
    (remaining : List AccountInfo) : Result VaultState := do
  s.signer ctx.user
  let assetMint ← s.mintAccount ctx.assetMint
  let _ ← s.mintAccount ctx.shareMint
  s.initRequest ctx.request
  let _ ← s.tokenAccount ctx.userTokenAccount ctx.assetMint ctx.user
  let _ ← s.tokenAccount ctx.pendingVault ctx.assetMint s.key
  VaultState.tokenProgram assetMint ctx.assetTokenProgram
  s.vault.assertUnpausedAndInitialized
  let context ← validateRequestShareMint s ctx.shareMint remaining
  checkDepositCap s ctx.assetMint ctx.vaultAsset args.amount
  checkPendingVault s ctx.assetMint ctx.vaultAsset ctx.pendingVault
  s.extensions.checkSubscriptionsPaused
  s.extensions.checkMinSubscriptionAmount args.amount
  enforceTrancheRequestLimits context ctx.shareMint .deposit args.amount
  let depositFee ← getDepositFee s.extensions args.amount
  ensure .insufficientDepositAmount (depositFee < args.amount)
  validateAssetMintExtensions assetMint
  let token ← cpi (s.token.transferChecked ctx.assetTokenProgram ctx.userTokenAccount
    ctx.assetMint ctx.pendingVault ctx.user args.amount)
  let request : Request :=
    { vault := s.key
      requestType := .deposit
      requestState := .pending
      owner := ctx.user
      amount := args.amount
      price := settlementNav context.trancheNav s.vault.nav
      assetMintAddress := ctx.assetMint
      shareMintAddress := ctx.shareMint
      createdAt := s.clock.unixTimestamp
      navUpdateVersion := s.vault.navVersion
      operator := args.operator
      subscriptionQueueId := none
      redemptionQueueId := none }
  let s ← incrementPendingRequests s
  let s ← addPendingDeposit s ctx.assetMint ctx.vaultAsset args.amount
  let (s, queueId) ← nextRequestId s context ctx.shareMint .deposit remaining
  pure { s with
    token := token
    requests := s.requests.insert ctx.request { request with subscriptionQueueId := queueId } }

structure CreateRedeemRequest where
  user : Pubkey
  assetMint : Pubkey
  shareMint : Pubkey
  vaultAsset : Option Pubkey
  request : Pubkey
  userShareAccount : Pubkey
  shareTokenProgram : TokenProgram

def createRedeemRequest (s : VaultState) (ctx : CreateRedeemRequest) (args : RequestArgs)
    (remaining : List AccountInfo) : Result VaultState := do
  s.signer ctx.user
  let _ ← s.mintAccount ctx.assetMint
  let _ ← s.mintAccount ctx.shareMint
  s.initRequest ctx.request
  let _ ← s.tokenAccount ctx.userShareAccount ctx.shareMint ctx.user
  s.vault.assertUnpausedAndInitialized
  let context ← validateRequestShareMint s ctx.shareMint remaining
  checkSupportedAsset s ctx.assetMint ctx.vaultAsset
  s.extensions.checkRedemptionsPaused
  s.extensions.checkMinRedemptionAmount args.amount
  ensure .insufficientRedeemAmount (0 < args.amount)
  enforceTrancheRequestLimits context ctx.shareMint .redeem args.amount
  let token ← cpi (s.token.burn ctx.shareTokenProgram ctx.userShareAccount ctx.shareMint
    ctx.user args.amount)
  let request : Request :=
    { vault := s.key
      requestType := .redeem
      requestState := .pending
      owner := ctx.user
      amount := args.amount
      price := settlementNav context.trancheNav s.vault.nav
      assetMintAddress := ctx.assetMint
      shareMintAddress := ctx.shareMint
      createdAt := s.clock.unixTimestamp
      navUpdateVersion := s.vault.navVersion
      operator := args.operator
      subscriptionQueueId := none
      redemptionQueueId := none }
  let s ← incrementPendingRequests s
  let (s, queueId) ← nextRequestId s context ctx.shareMint .redeem remaining
  pure { s with
    token := token
    requests := s.requests.insert ctx.request { request with redemptionQueueId := queueId } }

/-! ### Claiming -/

structure Claim where
  user : Pubkey
  owner : Pubkey
  assetMint : Pubkey
  shareMint : Pubkey
  vaultAsset : Option Pubkey
  request : Pubkey
  pendingVault : Option Pubkey
  userShareAccount : Option Pubkey
  userAssetAccount : Option Pubkey
  assetTokenProgram : TokenProgram
  shareTokenProgram : Option TokenProgram

/-- An optional declared account, once a handler needs it. -/
def required {α : Type} (account : Option α) : Result α :=
  okOr (.async .missingRequiredAccount) account

def claim (s : VaultState) (ctx : Claim) (remaining : List AccountInfo) : Result VaultState := do
  s.signer ctx.user
  let _ ← s.mintAccount ctx.assetMint
  let _ ← s.mintAccount ctx.shareMint
  let r ← s.requestAccount ctx.request
  ensure .invalidRequest (r.owner = ctx.owner)
  s.vault.assertUnpausedAndInitialized
  ensure .unauthorizedSigner (ctx.user = r.owner ∨ r.operator = some ctx.user)
  ensure .requestNotClaimable (r.requestState = .claimable)
  ensure .invalidAssetMint (r.assetMintAddress = ctx.assetMint)
  ensure .invalidShareMint (r.shareMintAddress = ctx.shareMint)
  let _ ← validateRequestShareMint s ctx.shareMint remaining
  match r.requestType with
  | .deposit => do
    let userShareAccount ← required ctx.userShareAccount
    let _ ← s.tokenAccount userShareAccount ctx.shareMint r.owner
    let shareTokenProgram ← required ctx.shareTokenProgram
    let token ← cpi (s.token.mintTo shareTokenProgram ctx.shareMint userShareAccount s.key
      r.amount)
    pure { s with token := token, requests := s.requests.erase ctx.request }
  | .redeem => do
    let pendingVault ← required ctx.pendingVault
    let _ ← s.tokenAccount pendingVault ctx.assetMint s.key
    checkPendingVault s ctx.assetMint ctx.vaultAsset pendingVault
    let userAssetAccount ← required ctx.userAssetAccount
    let _ ← s.tokenAccount userAssetAccount ctx.assetMint r.owner
    let token ← cpi (s.token.transferChecked ctx.assetTokenProgram pendingVault ctx.assetMint
      userAssetAccount s.key r.amount)
    pure { s with token := token, requests := s.requests.erase ctx.request }

/-! ### Refunds -/

/-- The accounts a refund goes through, the same in `CancelRequest` and
`RejectRequest`. -/
structure RefundAccounts where
  assetMint : Pubkey
  shareMint : Pubkey
  vaultAsset : Option Pubkey
  request : Pubkey
  userTokenAccount : Option Pubkey
  assetPendingVault : Option Pubkey
  userShareAccount : Option Pubkey
  shareTokenProgram : Option TokenProgram
  assetTokenProgram : Option TokenProgram

/-- Return what a pending request took (assets out of the pending vault, or
shares minted back), release its reservation and count it as no longer pending.
The request account itself is left to the caller. -/
def refund (s : VaultState) (ctx : RefundAccounts) (r : Request) : Result VaultState :=
  match r.requestType with
  | .deposit => do
    let pendingVault ← required ctx.assetPendingVault
    let _ ← s.tokenAccount pendingVault ctx.assetMint s.key
    checkPendingVault s ctx.assetMint ctx.vaultAsset pendingVault
    let userTokenAccount ← required ctx.userTokenAccount
    let _ ← s.tokenAccount userTokenAccount ctx.assetMint r.owner
    let assetTokenProgram ← required ctx.assetTokenProgram
    let token ← cpi (s.token.transferChecked assetTokenProgram pendingVault ctx.assetMint
      userTokenAccount s.key r.amount)
    let s ← subPendingDeposit s ctx.assetMint ctx.vaultAsset r.amount
    decrementPendingRequests { s with token := token }
  | .redeem => do
    let userShareAccount ← required ctx.userShareAccount
    let _ ← s.tokenAccount userShareAccount ctx.shareMint r.owner
    let shareTokenProgram ← required ctx.shareTokenProgram
    let token ← cpi (s.token.mintTo shareTokenProgram ctx.shareMint userShareAccount s.key
      r.amount)
    decrementPendingRequests { s with token := token }

/-- The mints of a refund are those of the request. -/
def checkRequestMints (s : VaultState) (assetMint shareMint : Pubkey) (r : Request)
    (remaining : List AccountInfo) : Result RequestShareMintContext := do
  let _ ← s.mintAccount assetMint
  let _ ← s.mintAccount shareMint
  ensure .invalidAssetMint (r.assetMintAddress = assetMint)
  ensure .invalidShareMint (r.shareMintAddress = shareMint)
  validateRequestShareMint s shareMint remaining

/-- A queued request has its own cancel instruction. -/
def validateQueueExtensionConstraints (r : Request) : Result Unit :=
  match r.requestType with
  | .deposit => ensure .mustUseCancelQueuedDepositRequest r.subscriptionQueueId.isNone
  | .redeem => ensure .mustUseCancelQueuedRedemptionRequest r.redemptionQueueId.isNone

def cancelRequest (s : VaultState) (user : Pubkey) (ctx : RefundAccounts)
    (remaining : List AccountInfo) : Result VaultState := do
  s.signer user
  let r ← s.requestAccount ctx.request
  ensure .unauthorizedSigner (r.owner = user)
  s.vault.assertUnpausedAndInitialized
  ensure .requestIsNotPending (r.requestState = .pending)
  let _ ← checkRequestMints s ctx.assetMint ctx.shareMint r remaining
  validateQueueExtensionConstraints r
  let s ← refund s ctx r
  pure { s with requests := s.requests.erase ctx.request }

structure ApproveRequestArgs where
  owner : Pubkey
  requestType : RequestType
  amount : ℕ
  createdAt : ℤ
  navUpdateVersion : ℕ

/-- Whether the arguments describe the live request (`ApproveRequestArgs` and
`RejectRequestArgs` have the same fields). -/
def ApproveRequestArgs.Matches (args : ApproveRequestArgs) (r : Request) : Prop :=
  r.owner = args.owner ∧ r.requestType = args.requestType ∧ r.amount = args.amount ∧
    r.createdAt = args.createdAt ∧ r.navUpdateVersion = args.navUpdateVersion

instance (args : ApproveRequestArgs) (r : Request) : Decidable (args.Matches r) :=
  inferInstanceAs (Decidable (_ ∧ _))

def rejectRequest (s : VaultState) (authority user : Pubkey) (ctx : RefundAccounts)
    (args : ApproveRequestArgs) (remaining : List AccountInfo) : Result VaultState := do
  s.signer authority
  let r ← s.requestAccount ctx.request
  ensure .unauthorizedSigner (r.owner = user)
  s.vault.assertCuratorOrFulfiller authority
  ensure .requestInvalidState (r.requestState = .pending)
  ensure .approvalRequestMismatch (args.Matches r)
  let context ← checkRequestMints s ctx.assetMint ctx.shareMint r remaining
  let s ← advanceQueue s context ctx.shareMint r remaining
  let s ← refund s ctx r
  pure { s with requests := s.requests.erase ctx.request }

structure CancelQueuedDepositRequest where
  user : Pubkey
  assetMint : Pubkey
  shareMint : Pubkey
  vaultAsset : Option Pubkey
  request : Pubkey
  userTokenAccount : Pubkey
  assetPendingVault : Pubkey
  assetTokenProgram : TokenProgram

/-- Refund a queued deposit; the request stays as a canceled tombstone. -/
def cancelQueuedDepositRequest (s : VaultState) (ctx : CancelQueuedDepositRequest)
    (remaining : List AccountInfo) : Result VaultState := do
  s.signer ctx.user
  let r ← s.requestAccount ctx.request
  ensure .unauthorizedSigner (r.owner = ctx.user)
  ensure .invalidRequestType (r.requestType = .deposit)
  s.vault.assertUnpausedAndInitialized
  ensure .requestIsNotPending (r.requestState = .pending)
  ensure .uninitializedExtension r.subscriptionQueueId.isSome
  let _ ← checkRequestMints s ctx.assetMint ctx.shareMint r remaining
  let s ← refund s
    { assetMint := ctx.assetMint
      shareMint := ctx.shareMint
      vaultAsset := ctx.vaultAsset
      request := ctx.request
      userTokenAccount := some ctx.userTokenAccount
      assetPendingVault := some ctx.assetPendingVault
      userShareAccount := none
      shareTokenProgram := none
      assetTokenProgram := some ctx.assetTokenProgram } r
  pure { s with requests := s.requests.insert ctx.request { r with requestState := .canceled } }

structure CancelQueuedRedemptionRequest where
  user : Pubkey
  assetMint : Pubkey
  shareMint : Pubkey
  request : Pubkey
  userShareAccount : Pubkey
  shareTokenProgram : TokenProgram

/-- Mint the shares of a queued redemption back; the request stays as a canceled
tombstone.  The account constraint `has_one = asset_mint` on the vault restricts
this instruction to the primary asset. -/
def cancelQueuedRedemptionRequest (s : VaultState) (ctx : CancelQueuedRedemptionRequest)
    (remaining : List AccountInfo) : Result VaultState := do
  s.signer ctx.user
  ensure .invalidAssetMint (s.vault.assetMint = ctx.assetMint)
  let r ← s.requestAccount ctx.request
  ensure .unauthorizedSigner (r.owner = ctx.user)
  ensure .invalidRequestType (r.requestType = .redeem)
  s.vault.assertUnpausedAndInitialized
  ensure .requestIsNotPending (r.requestState = .pending)
  ensure .uninitializedExtension r.redemptionQueueId.isSome
  let _ ← checkRequestMints s ctx.assetMint ctx.shareMint r remaining
  let s ← refund s
    { assetMint := ctx.assetMint
      shareMint := ctx.shareMint
      vaultAsset := none
      request := ctx.request
      userTokenAccount := none
      assetPendingVault := none
      userShareAccount := some ctx.userShareAccount
      shareTokenProgram := some ctx.shareTokenProgram
      assetTokenProgram := none } r
  pure { s with requests := s.requests.insert ctx.request { r with requestState := .canceled } }

/-- Advance the queue past a canceled request and close it; anyone may. -/
def skipCanceledQueueRequest (s : VaultState) (request owner : Pubkey)
    (remaining : List AccountInfo) : Result VaultState := do
  let r ← s.requestAccount request
  ensure .requestIsNotCanceled (r.requestState = .canceled)
  require (.account .hasOne) (r.owner = owner)
  let context ← validateRequestShareMint s r.shareMintAddress remaining
  let s ← advanceQueue s context r.shareMintAddress r remaining
  pure { s with requests := s.requests.erase request }

/-- Name the operator that may claim for the owner. -/
def setOperator (s : VaultState) (user operator request : Pubkey) : Result VaultState := do
  s.signer user
  s.signer operator
  let r ← okOr (.account .accountNotInitialized) (s.requests.lookup request)
  ensure .unauthorizedSigner (user = r.owner)
  pure { s with requests := s.requests.insert request { r with operator := some operator } }

end AsyncVault
