/-
AsyncVault/Program.lean

The program as a machine.

An action is either an instruction of the program, with its accounts and
arguments, or something third parties do around it: transfer or burn tokens
they own or are delegates for, mint other tokens, open and close their own
accounts, approve delegates, freeze accounts or pause mints they control, change
the transfer fee of a mint, or let time pass.  `exec` performs an action or refuses
it; a refused action leaves the state as it was, since a failed transaction is
rolled back.

Managed calls to external programs and the venue instructions are not part of
this machine.
-/
import AsyncVault.VaultUpdate
import AsyncVault.Lib.Machine

namespace AsyncVault

open Checked TokenLedger Machine

/-! ### Instructions -/

/-- Instructions on requests. -/
inductive RequestInstruction
  | createDepositRequest (ctx : CreateDepositRequest) (args : RequestArgs)
  | createRedeemRequest (ctx : CreateRedeemRequest) (args : RequestArgs)
  | approveRequest (ctx : ApproveRequest) (args : ApproveRequestArgs)
  | rejectRequest (authority user : Pubkey) (ctx : RefundAccounts) (args : ApproveRequestArgs)
  | cancelRequest (user : Pubkey) (ctx : RefundAccounts)
  | cancelQueuedDepositRequest (ctx : CancelQueuedDepositRequest)
  | cancelQueuedRedemptionRequest (ctx : CancelQueuedRedemptionRequest)
  | skipCanceledQueueRequest (request owner : Pubkey)
  | claim (ctx : Claim)
  | setOperator (user operator request : Pubkey)

/-- Configuration instructions; none of them moves tokens of a user. -/
inductive ConfigInstruction
  | initializeVault (authority shareMint : Pubkey)
  | initializeTranches (ctx : InitializeTranches) (args : InitializeTranchesArgs)
  | initDepositFee (authority : Pubkey) (fee : FeeType)
  | initWithdrawalFee (authority : Pubkey) (fee : FeeType)
  | initPausableSubscriptions (authority : Pubkey) (paused : Bool)
  | initPausableRedemptions (authority : Pubkey) (paused : Bool)
  | initializeSubscriptionQueue (authority : Pubkey)
  | initializeRedemptionQueue (authority : Pubkey)
  | initMinSubscription (authority : Pubkey) (threshold : ℕ)
  | initMinRedemption (authority : Pubkey) (threshold : ℕ)
  | initializeExternallyManagedWithdrawals (authority : Pubkey)
  | initializeInstantSettlement (authority : Pubkey) (args : InitializeInstantSettlementArgs)
  | updateFee (authority : Pubkey) (args : FeeUpdateArgs)
  | updateExtension (authority : Pubkey) (args : ExtensionUpdateArgs)
  | updateVault (authority : Pubkey) (args : UpdateVaultArgs)
  | queueVaultUpdate (authority account : Pubkey) (args : UpdateVaultArgs)
  | executeVaultUpdate (executor account : Pubkey)
  | cancelVaultUpdate (authority account : Pubkey)
  | queueFeeUpdate (authority account : Pubkey) (args : FeeUpdateArgs)
  | executeFeeUpdate (executor account : Pubkey)
  | cancelFeeUpdate (authority account : Pubkey)
  | queueExtensionUpdate (authority account : Pubkey) (args : ExtensionUpdateArgs)
  | executeExtensionUpdate (executor account : Pubkey)
  | cancelExtensionUpdate (authority account : Pubkey)
  | pauseVault (breaker : Pubkey)
  | inviteNewAuthority (authority newAuthority : Pubkey)
  | acceptAuthorityInvitation (newAuthority : Pubkey)
  | initializeProtocolFeeConfig (authority recipient : Pubkey)
  | updateProtocolFeeConfig (authority recipient : Pubkey)
  | addVaultAsset (ctx : AddVaultAsset) (depositCap : ℕ)
  | removeVaultAsset (authority assetMint : Pubkey)

/-- What third parties do on their own signatures, and the passing of time. -/
inductive WorldAction
  | transfer (authority : Pubkey) (program : TokenProgram) (src mint dst : Pubkey) (amount : ℕ)
  | burn (authority : Pubkey) (program : TokenProgram) (src mint : Pubkey) (amount : ℕ)
  | transferDelegated (delegate : Pubkey) (program : TokenProgram) (src mint dst : Pubkey)
      (amount : ℕ)
  | burnDelegated (delegate : Pubkey) (program : TokenProgram) (src mint : Pubkey) (amount : ℕ)
  | applySetting (authority : Pubkey) (i : Setting Pubkey)
  | mintTo (authority : Pubkey) (program : TokenProgram) (mint dst : Pubkey) (amount : ℕ)
  | initializeMint (address : Pubkey) (mint : Mint Pubkey)
  | setMintAuthority (authority : Pubkey) (program : TokenProgram) (mint : Pubkey)
      (next : Option Pubkey)
  | setTransferFee (authority mint : Pubkey) (bps maximum : ℕ)
  | initializeAccount (program : TokenProgram) (address mint owner : Pubkey)
  | closeAccount (authority address : Pubkey)
  | advanceClock (clock : Clock)

inductive Action
  | request (i : RequestInstruction) (remaining : List AccountInfo)
  | instantDeposit (ctx : InstantDeposit) (amount : ℕ) (remaining : List AccountInfo)
  | instantRedeem (ctx : InstantRedeem) (shares : ℕ) (remaining : List AccountInfo)
  | updateVaultNav (authority : Pubkey) (updatedNav : ℕ) (remaining : List AccountInfo)
  | config (i : ConfigInstruction)
  | world (w : WorldAction)

/-! ### Execution -/

def execRequest (s : VaultState) (i : RequestInstruction) (remaining : List AccountInfo) :
    Result VaultState :=
  match i with
  | .createDepositRequest ctx args => createDepositRequest s ctx args remaining
  | .createRedeemRequest ctx args => createRedeemRequest s ctx args remaining
  | .approveRequest ctx args => approveRequest s ctx args remaining
  | .rejectRequest authority user ctx args => rejectRequest s authority user ctx args remaining
  | .cancelRequest user ctx => cancelRequest s user ctx remaining
  | .cancelQueuedDepositRequest ctx => cancelQueuedDepositRequest s ctx remaining
  | .cancelQueuedRedemptionRequest ctx => cancelQueuedRedemptionRequest s ctx remaining
  | .skipCanceledQueueRequest request owner => skipCanceledQueueRequest s request owner remaining
  | .claim ctx => claim s ctx remaining
  | .setOperator user operator request => setOperator s user operator request

def execConfig (s : VaultState) : ConfigInstruction → Result VaultState
  | .initializeVault authority shareMint => initializeVault s authority shareMint
  | .initializeTranches ctx args => initializeTranches s ctx args
  | .initDepositFee authority fee => initDepositFee s authority fee
  | .initWithdrawalFee authority fee => initWithdrawalFee s authority fee
  | .initPausableSubscriptions authority paused => initPausableSubscriptions s authority paused
  | .initPausableRedemptions authority paused => initPausableRedemptions s authority paused
  | .initializeSubscriptionQueue authority => initializeSubscriptionQueue s authority
  | .initializeRedemptionQueue authority => initializeRedemptionQueue s authority
  | .initMinSubscription authority threshold => initMinSubscription s authority threshold
  | .initMinRedemption authority threshold => initMinRedemption s authority threshold
  | .initializeExternallyManagedWithdrawals authority =>
    initializeExternallyManagedWithdrawals s authority
  | .initializeInstantSettlement authority args => initializeInstantSettlement s authority args
  | .updateFee authority args => updateFee s authority args
  | .updateExtension authority args => updateExtension s authority args
  | .updateVault authority args => updateVault s authority args
  | .queueVaultUpdate authority account args => queueVaultUpdate s authority account args
  | .executeVaultUpdate executor account => executeVaultUpdate s executor account
  | .cancelVaultUpdate authority account => cancelVaultUpdate s authority account
  | .queueFeeUpdate authority account args => queueFeeUpdate s authority account args
  | .executeFeeUpdate executor account => executeFeeUpdate s executor account
  | .cancelFeeUpdate authority account => cancelFeeUpdate s authority account
  | .queueExtensionUpdate authority account args => queueExtensionUpdate s authority account args
  | .executeExtensionUpdate executor account => executeExtensionUpdate s executor account
  | .cancelExtensionUpdate authority account => cancelExtensionUpdate s authority account
  | .pauseVault breaker => pauseVault s breaker
  | .inviteNewAuthority authority newAuthority => inviteNewAuthority s authority newAuthority
  | .acceptAuthorityInvitation newAuthority => acceptAuthorityInvitation s newAuthority
  | .initializeProtocolFeeConfig authority recipient =>
    initializeProtocolFeeConfig s authority recipient
  | .updateProtocolFeeConfig authority recipient => updateProtocolFeeConfig s authority recipient
  | .addVaultAsset ctx depositCap => addVaultAsset s ctx depositCap
  | .removeVaultAsset authority assetMint => removeVaultAsset s authority assetMint

/-- The token ledger after a third party's action on it. -/
def worldToken (s : VaultState) : WorldAction → Result (Ledger Pubkey)
  | .transfer authority program src mint dst amount => do
    s.signer authority
    cpi (s.token.transfer program src mint dst authority amount)
  | .burn authority program src mint amount => do
    s.signer authority
    cpi (s.token.burn program src mint authority amount)
  | .transferDelegated delegate program src mint dst amount => do
    s.signer delegate
    cpi (s.token.transferDelegated program src mint dst delegate amount)
  | .burnDelegated delegate program src mint amount => do
    s.signer delegate
    cpi (s.token.burnDelegated program src mint delegate amount)
  | .applySetting authority i => do
    s.signer authority
    cpi (s.token.applySetting authority i)
  | .mintTo authority program mint dst amount => do
    s.signer authority
    cpi (s.token.mintTo program mint dst authority amount)
  | .initializeMint address mint => cpi (s.token.initializeMint address mint)
  | .setMintAuthority authority program mint next => do
    s.signer authority
    cpi (s.token.setMintAuthority program mint authority next)
  | .setTransferFee authority mint bps maximum => do
    s.signer authority
    cpi (s.token.setTransferFee mint bps maximum)
  | .initializeAccount program address mint owner =>
    cpi (s.token.initializeAccount program address mint owner)
  | .closeAccount authority address => do
    s.signer authority
    cpi (s.token.closeAccount address authority)
  | .advanceClock _ => pure s.token

def execWorld (s : VaultState) (w : WorldAction) : Result VaultState := do
  let token ← worldToken s w
  let clock ←
    (match w with
    | .advanceClock clock => do
      require (.account .invalidAccountData) (s.clock.slot ≤ clock.slot)
      pure clock
    | _ => pure s.clock : Result Clock)
  pure { s with token := token, clock := clock }

/-- One transaction. -/
def exec (s : VaultState) : Action → Result VaultState
  | .request i remaining => execRequest s i remaining
  | .instantDeposit ctx amount remaining => instantDeposit s ctx amount remaining
  | .instantRedeem ctx shares remaining => instantRedeem s ctx shares remaining
  | .updateVaultNav authority updatedNav remaining =>
      updateVaultNav s authority updatedNav remaining
  | .config i => execConfig s i
  | .world w => execWorld s w

/-- A vault as `create_vault` leaves it, in any surroundings. -/
def Created (s : VaultState) : Prop :=
  ∃ w ctx args, createVault w ctx args = .ok s

/-- The states a vault can be in. -/
def VaultState.IsReachable (s : VaultState) : Prop := Reachable exec Created s

/-- The runs of a vault from a state. -/
abbrev VaultRun (s₀ : VaultState) (tr : List (Transition VaultState Action)) (s : VaultState) :
    Prop := Run exec s₀ tr s

end AsyncVault
