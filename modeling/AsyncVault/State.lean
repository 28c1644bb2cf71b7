/-
AsyncVault/State.lean

The state of one vault and how an instruction reads its accounts.

`VaultState` gathers what the program and the token programs store for a vault:
the vault account with its extensions, the tranche configuration, the registered
secondary assets, the request accounts, the per-user instant-settlement buckets,
the queued configuration changes and the token ledger.

Addresses.  Accounts created at a caller-chosen address (requests, queued
updates) are keyed by that address.  Accounts whose address is derived from
seeds are keyed by the seed that varies: a secondary asset by its mint, an
instant-settlement bucket by its user.  The two derived addresses that callers
pass among the remaining accounts, and that handlers compare, are the fields
`trancheConfigPda` and `protocolFeeConfigPda`.

The vault's own address is derived too, so no transaction carries its signature;
`VaultState.signer` is that rule.  The program signs for the vault in the token
calls it makes itself.

The accounts an instruction declares are loaded through the functions of the
second section, each of which checks what the declared constraints check.
Remaining accounts come as a list of `AccountInfo`.
-/
import AsyncVault.Waterfall

namespace AsyncVault

open Checked TokenLedger KeyedStore

structure Clock where
  slot : ℕ
  unixTimestamp : ℤ
  deriving DecidableEq

/-- The addresses of the two token programs. -/
structure TokenProgramIds where
  token : Pubkey
  token2022 : Pubkey
  deriving DecidableEq

def TokenProgramIds.program (ids : TokenProgramIds) (k : Pubkey) : Option TokenProgram :=
  if k = ids.token then some .token
  else if k = ids.token2022 then some .token2022
  else none

structure VaultState where
  key : Pubkey
  trancheConfigPda : Pubkey
  protocolFeeConfigPda : Pubkey
  tokenProgramIds : TokenProgramIds
  clock : Clock
  vault : Vault
  extensions : VaultExtensions
  trancheConfig : Option TrancheConfig
  vaultAssets : Pubkey → Option VaultAsset
  requests : Store Pubkey Request
  instantUsers : Pubkey → Option InstantSettlementUser
  protocolFeeConfig : Option ProtocolFeeConfig
  pendingVaultUpdates : Pubkey → Option (PendingUpdate UpdateVaultArgs)
  pendingFeeUpdates : Pubkey → Option (PendingUpdate FeeUpdateArgs)
  pendingExtensionUpdates : Pubkey → Option (PendingUpdate ExtensionUpdateArgs)
  token : Ledger Pubkey

/-- An account passed beyond the declared ones.  What it stores is looked up in
the state by its key; `rawData` is set instead for an account of some other
program, and gives what its bytes 0–31 and 32–63 read as. -/
structure AccountInfo where
  key : Pubkey
  isWritable : Bool := true
  rawData : Option (Pubkey × Pubkey) := none

/-- Run a token-program call inside an instruction. -/
def cpi {α : Type} (x : Except TokenError α) : Result α :=
  x.mapError .token

@[simp] theorem cpi_eq_ok {α : Type} {x : Except TokenError α} {a : α} :
    cpi x = .ok a ↔ x = .ok a := by
  cases x <;> simp [cpi, Except.mapError]

@[simp] theorem avoids_cpi {α : Type} {bad : VaultError → Prop} {x : Except TokenError α} :
    Avoids bad (cpi x) ↔ Avoids (fun e => bad (.token e)) x := by
  cases x <;> simp [cpi, Except.mapError, Avoids]

/-! ### Declared accounts -/

namespace VaultState

/-- A signer of the transaction is never the vault itself. -/
def signer (s : VaultState) (k : Pubkey) : Result Unit :=
  require (.account .missingSignature) (k ≠ s.key)

/-- A declared mint account. -/
def mintAccount (s : VaultState) (m : Pubkey) : Result (Mint Pubkey) :=
  okOr (.account .accountNotInitialized) (s.token.mints m)

/-- A declared token account, with its `token::mint` and `token::authority`
constraints. -/
def tokenAccount (s : VaultState) (a mint authority : Pubkey) :
    Result (TokenAccount Pubkey) := do
  let x ← okOr (.account .accountNotInitialized) (s.token.accounts a)
  require (.account .tokenMint) (x.mint = mint)
  require (.account .tokenOwner) (x.owner = authority)
  pure x

/-- The `token::token_program` constraint on an account of the given mint. -/
def tokenProgram (m : Mint Pubkey) (program : TokenProgram) : Result Unit :=
  require (.account .tokenProgram) (m.program = program)

/-- A declared request account, with `has_one = vault`. -/
def requestAccount (s : VaultState) (k : Pubkey) : Result Request := do
  let r ← okOr (.account .accountNotInitialized) (s.requests.lookup k)
  ensure .invalidRequest (r.vault = s.key)
  pure r

/-- The address of a request account to be created must be free. -/
def initRequest (s : VaultState) (k : Pubkey) : Result Unit :=
  require (.account .accountInUse) (s.requests.lookup k = none)

/-- The declared `VaultAsset` account, named by its mint, once a handler needs
it: it must be the one of `assetMint` on this vault. -/
def secondaryAsset (s : VaultState) (account : Option Pubkey) (assetMint : Pubkey) :
    Result VaultAsset := do
  let m ← okOr (.async .invalidAssetMint) account
  let va ← okOr (.account .accountNotInitialized) (s.vaultAssets m)
  va.assertMatches s.key assetMint
  pure va

variable {s : VaultState} {a m o k : Pubkey}

@[simp] theorem signer_eq_ok {u : Unit} : s.signer k = .ok u ↔ k ≠ s.key := require_eq_ok

@[simp] theorem mintAccount_eq_ok {x : Mint Pubkey} :
    s.mintAccount m = .ok x ↔ s.token.mints m = some x := okOr_eq_ok

theorem tokenAccount_eq_ok {x : TokenAccount Pubkey} :
    s.tokenAccount a m o = .ok x ↔ s.token.accounts a = some x ∧ x.mint = m ∧ x.owner = o := by
  simp only [tokenAccount, bind_eq_ok, okOr_eq_ok, require_eq_ok, pure_eq_ok]
  grind

theorem holds_of_tokenAccount {x : TokenAccount Pubkey} (h : s.tokenAccount a m o = .ok x) :
    s.token.Holds a m o :=
  ⟨x, tokenAccount_eq_ok.1 h⟩

@[simp] theorem requestAccount_eq_ok {r : Request} :
    s.requestAccount k = .ok r ↔ s.requests.lookup k = some r ∧ r.vault = s.key := by
  simp only [requestAccount, bind_eq_ok, okOr_eq_ok, ensure_eq_ok, pure_eq_ok]
  grind

@[simp] theorem initRequest_eq_ok {u : Unit} :
    s.initRequest k = .ok u ↔ s.requests.lookup k = none := require_eq_ok

/-! ### Remaining accounts -/

/-- `validate_token_account_mint_and_owner`. -/
def validateTokenAccountMintAndOwner (s : VaultState) (info : AccountInfo)
    (expectedMint expectedOwner : Pubkey) : Result Unit :=
  let data := info.rawData <|> (s.token.accounts info.key).map fun x => (x.mint, x.owner)
  match data with
  | none => .error (.account .invalidAccountData)
  | some (mint, owner) => do
    require (.account .invalidAccountData) (mint = expectedMint)
    require (.account .invalidAccountOwner) (owner = expectedOwner)

/-- `validate_token_account_owner`. -/
def validateTokenAccountOwner (s : VaultState) (info : AccountInfo) (expectedOwner : Pubkey) :
    Result Unit :=
  let data := info.rawData <|> (s.token.accounts info.key).map fun x => (x.mint, x.owner)
  match data with
  | none => .error (.account .invalidAccountData)
  | some (_, owner) => require (.account .invalidAccountOwner) (owner = expectedOwner)

/-- A remaining account that must be a mint of one of the token programs. -/
def tokenMintInfo (s : VaultState) (info : AccountInfo) : Result (Mint Pubkey) :=
  okOr (.async .invalidShareMint) (s.token.mints info.key)

/-- `Account<TrancheConfig>::try_from`. -/
def loadTrancheConfig (s : VaultState) (info : AccountInfo) : Result TrancheConfig := do
  require (.account .invalidAccountData) (info.key = s.trancheConfigPda)
  okOr (.account .accountNotInitialized) s.trancheConfig

/-- The protocol fee recipient, and whether the first remaining account was the
program-wide configuration and is consumed. -/
def resolveProtocolFeeRecipient (s : VaultState) (maybeConfig : Option AccountInfo) :
    Result (Pubkey × Bool) :=
  match maybeConfig, s.protocolFeeConfig with
  | some info, some config =>
    if info.key = s.protocolFeeConfigPda then do
      ensure .invalidFeeRecipient (config.protocolFeeRecipient ≠ Pubkey.default)
      pure (config.protocolFeeRecipient, true)
    else
      pure (s.vault.protocolFeeRecipient, false)
  | _, _ => pure (s.vault.protocolFeeRecipient, false)

/-- A token transfer to a remaining account, which must be a token account. -/
def transferToInfo (token : Ledger Pubkey) (program : TokenProgram) (src mint : Pubkey)
    (info : AccountInfo) (authority : Pubkey) (amount : ℕ) : Result (Ledger Pubkey) := do
  require (.token .uninitializedState) info.rawData.isNone
  cpi (token.transferChecked program src mint info.key authority amount)

end VaultState

end AsyncVault
