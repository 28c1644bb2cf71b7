/-
AsyncVault/Scenario.lean

A small vault to run scripts on.

Statements about every run of a vault are shown not to be empty, or to fail, by
a script: a list of actions that starts from a vault just created and that is
executed by evaluation.  This file sets the stage.  There is one depositor, one
asset and two share mints with chosen decimals; the curator holds every role,
and NAVs need not be fresh.  A script says what to do on it, and a test what to
look for at its end (`exists_run`).
-/
import AsyncVault.Refinement

namespace AsyncVault.Scenario

open Checked TokenLedger KeyedStore Machine

/-! ### The stage -/

def address (n : ℕ) : Pubkey := ⟨BitVec.ofNat 256 n⟩

def vault := address 1
def curator := address 2
def issuer := address 3
def user := address 4
def asset := address 10
def senior := address 11
def junior := address 12
def reserve := address 20
def pendingVault := address 21
def userAsset := address 22
def userSenior := address 23
def userJunior := address 24
def tranchePda := address 30

/-- A mint of the issuer. -/
def mint (decimals supply : ℕ) : Mint Pubkey where
  program := .token
  decimals := decimals
  supply := supply
  mintAuthority := some issuer
  transferFeeBps := 0
  maximumFee := 0
  confidentialMintBurn := false

/-- The user holds assets and has empty share accounts. -/
def token (seniorDecimals juniorDecimals : ℕ) : Ledger Pubkey where
  mints m :=
    if m = asset then some (mint 0 1000000000)
    else if m = senior then some (mint seniorDecimals 0)
    else if m = junior then some (mint juniorDecimals 0)
    else none
  accounts a :=
    if a = userAsset then some { mint := asset, owner := user, amount := 1000000000 }
    else if a = userSenior then some { mint := senior, owner := user, amount := 0 }
    else if a = userJunior then some { mint := junior, owner := user, amount := 0 }
    else none

def world (seniorDecimals juniorDecimals : ℕ) : World where
  trancheConfigPda := tranchePda
  protocolFeeConfigPda := address 31
  tokenProgramIds := ⟨address 40, address 41⟩
  clock := ⟨1, 0⟩
  protocolFeeConfig := none
  token := token seniorDecimals juniorDecimals

def accounts : CreateVault where
  mintAuthority := issuer
  assetMint := asset
  shareMint := senior
  vault := vault
  reserve := reserve
  pendingVault := pendingVault
  assetTokenProgram := .token
  shareTokenProgram := .token

/-! ### Actions -/

/-- Let requests be approved at the NAV they were created under. -/
def anyNav : Action := .config (.updateVault curator { requireFreshNav := some false })

def start : Action := .config (.initializeVault curator senior)

/-- Split the vault, with a senior target and a junior floor. -/
def split (target minRatio : ℕ) : Action :=
  .config (.initializeTranches
    { mintAuthority := issuer
      authority := curator
      seniorShareMint := senior
      juniorShareMint := junior
      seniorShareTokenProgram := .token
      juniorShareTokenProgram := .token }
    { seniorTargetBps := target
      minJuniorRatioBps := minRatio
      minRequestAmounts := ⟨0, 0, 0, 0⟩
      maxRequestAmounts := ⟨0, 0, 0, 0⟩ })

/-- The accounts a tranche vault wants after the declared ones; a plain vault
ignores them. -/
def trancheAccounts : List AccountInfo :=
  [{ key := tranchePda }, { key := senior }, { key := junior }]

def post (nav : ℕ) : Action := .updateVaultNav curator nav trancheAccounts

def wait (seconds : ℤ) : Action := .world (.advanceClock ⟨2, seconds⟩)

def shareAccount (m : Pubkey) : Pubkey := if m = senior then userSenior else userJunior

/-- The user deposits for shares of `m`, in the request account `k`. -/
def deposit (k : ℕ) (m : Pubkey) (amount : ℕ) : Action :=
  .request (.createDepositRequest
    { user := user
      assetMint := asset
      shareMint := m
      vaultAsset := none
      request := address k
      userTokenAccount := userAsset
      pendingVault := pendingVault
      assetTokenProgram := .token }
    ⟨amount, none⟩) trancheAccounts

def redeem (k : ℕ) (m : Pubkey) (amount : ℕ) : Action :=
  .request (.createRedeemRequest
    { user := user
      assetMint := asset
      shareMint := m
      vaultAsset := none
      request := address k
      userShareAccount := shareAccount m
      shareTokenProgram := .token }
    ⟨amount, none⟩) trancheAccounts

def approval (k : ℕ) (m : Pubkey) : ApproveRequest where
  authority := curator
  assetMint := asset
  shareMint := m
  vaultAsset := none
  request := address k
  vaultTokenAccount := reserve
  pendingVault := pendingVault
  assetTokenProgram := .token

/-- Approve the request at `k`, of the given type and amount, created after
`version` NAV updates. -/
def approve (k : ℕ) (m : Pubkey) (type : RequestType) (amount version : ℕ) : Action :=
  .request (.approveRequest (approval k m) ⟨user, type, amount, 0, version⟩) trancheAccounts

def collect (k : ℕ) (m : Pubkey) : Action :=
  .request (.claim
    { user := user
      owner := user
      assetMint := asset
      shareMint := m
      vaultAsset := none
      request := address k
      pendingVault := some pendingVault
      userShareAccount := some (shareAccount m)
      userAssetAccount := some userAsset
      assetTokenProgram := .token
      shareTokenProgram := some .token }) trancheAccounts

/-- Keep both kinds of requests in queues. -/
def openQueues : List Action :=
  [.config (.initializeSubscriptionQueue curator), .config (.initializeRedemptionQueue curator)]

/-- The user takes back the queued deposit at `k`. -/
def cancelQueuedDeposit (k : ℕ) (m : Pubkey) : Action :=
  .request (.cancelQueuedDepositRequest
    { user := user
      assetMint := asset
      shareMint := m
      vaultAsset := none
      request := address k
      userTokenAccount := userAsset
      assetPendingVault := pendingVault
      assetTokenProgram := .token }) trancheAccounts

def skip (k : ℕ) : Action := .request (.skipCanceledQueueRequest (address k) user) trancheAccounts

/-- The user sends assets to the reserve. -/
def donate (amount : ℕ) : Action :=
  .world (.transfer user .token userAsset asset reserve amount)

/-- Open the fee recipient's share account. -/
def openFeeAccount : Action := .world (.initializeAccount .token (address 50) senior curator)

/-- Charge a performance fee. -/
def chargeFee (bps : ℕ) : Action :=
  .config (.updateVault curator { performanceFeeBps := some bps })

def capDeposits (cap : ℕ) : Action :=
  .config (.updateVault curator { depositCap := some cap })

/-- The accounts a performance fee wants. -/
def feeAccounts : List AccountInfo :=
  [{ key := senior }, { key := address 50 }, { key := address 40 }]

/-! ### Instant settlement -/

/-- Settle instantly, without limits and for a fee of one basis point. -/
def openInstant : List Action :=
  [.config (.updateVault curator { maxNavStalenessSlots := some 100 }),
    .config (.initializeInstantSettlement curator
      { instantRedemptionFeeBps := 1
        minDepositAmount := 0
        maxDepositAmount := 0
        minRedeemShares := 0
        maxRedeemShares := 0
        maxUserDepositAmount := 0
        maxUserRedeemShares := 0 })]

/-- The fee recipient's asset account, and the instruction that opens it. -/
def feeAsset := address 51

def openFeeAssetAccount : Action := .world (.initializeAccount .token feeAsset asset curator)

def depositNow (amount : ℕ) : Action :=
  .instantDeposit
    { user := user
      assetMint := asset
      shareMint := senior
      instantUser := none
      vaultTokenAccount := reserve
      userAssetAccount := userAsset
      userShareAccount := userSenior
      feeRecipientTokenAccount := some feeAsset
      protocolFeeRecipientTokenAccount := none
      assetTokenProgram := .token
      shareTokenProgram := .token } amount []

def redeemNow (shares : ℕ) : Action :=
  .instantRedeem
    { user := user
      assetMint := asset
      shareMint := senior
      instantUser := none
      vaultTokenAccount := reserve
      userShareAccount := userSenior
      userAssetAccount := userAsset
      feeRecipientTokenAccount := some feeAsset
      protocolFeeRecipientTokenAccount := none
      assetTokenProgram := .token
      shareTokenProgram := .token } shares []

/-- Both kinds of entry paused. -/
def pauseEntries : List Action :=
  [.config (.initPausableSubscriptions curator true),
    .config (.initPausableRedemptions curator true)]

/-- A plain vault with `amount` assets deposited at a NAV of 10 and the shares not yet
claimed, which charges 20% of what the NAV rises. -/
def plainWithFee (amount : ℕ) : List Action :=
  [anyNav, start, post 10, deposit 100 senior amount, approve 100 senior .deposit amount 1,
    openFeeAccount, chargeFee 2000]

/-- Two tranches of 10 shares each, bought and recorded at a NAV of 10. -/
def twoTranches : List Action :=
  [anyNav, post 10, split 0 0, start, deposit 100 senior 100, approve 100 senior .deposit 100 1,
    deposit 101 junior 100, approve 101 junior .deposit 100 1, post 10]

/-! ### Scripts -/

/-- Whether an instruction fails with an error. -/
def failsWith (x : Result VaultState) (e : VaultError) : Bool :=
  match x with
  | .error e' => e' = e
  | .ok _ => false

theorem of_failsWith {x : Result VaultState} {e : VaultError} (h : failsWith x e = true) :
    x = .error e := by
  unfold failsWith at h
  split at h
  · rw [of_decide_eq_true h]
  · cases h

/-- Whether an instruction succeeds in a state that passes a test. -/
def succeedsWith (x : Result VaultState) (p : VaultState → Bool) : Bool :=
  match x with
  | .ok s => p s
  | .error _ => false

theorem of_succeedsWith {x : Result VaultState} {p : VaultState → Bool}
    (h : succeedsWith x p = true) : ∃ s, x = .ok s ∧ p s = true := by
  unfold succeedsWith at h
  split at h
  · next s => exact ⟨s, rfl, h⟩
  · cases h

/-- Whether a script on a new vault with these share decimals passes a test. -/
def passes (seniorDecimals juniorDecimals : ℕ) (script : List Action)
    (p : List (Transition VaultState Action) → VaultState → Bool) : Bool :=
  match createVault (world seniorDecimals juniorDecimals) accounts ⟨curator, curator⟩ with
  | .ok s => plays exec s script p
  | .error _ => false

/-- **Scenarios.** A script that passes gives a run of a new vault that does. -/
theorem exists_run (seniorDecimals juniorDecimals : ℕ) (script : List Action)
    (p : List (Transition VaultState Action) → VaultState → Bool)
    (h : passes seniorDecimals juniorDecimals script p = true) :
    ∃ s₀ tr s, Created s₀ ∧ VaultRun s₀ tr s ∧ p tr s = true := by
  unfold passes at h
  split at h
  · next s₀ h₀ =>
    obtain ⟨tr, s, hrun, -, hp⟩ := exists_of_plays h
    exact ⟨s₀, tr, s, ⟨_, _, _, h₀⟩, hrun, hp⟩
  · cases h

theorem exists_reachable (seniorDecimals juniorDecimals : ℕ) (script : List Action)
    (p : List (Transition VaultState Action) → VaultState → Bool)
    (h : passes seniorDecimals juniorDecimals script p = true) :
    ∃ tr s, s.IsReachable ∧ p tr s = true := by
  obtain ⟨s₀, tr, s, h₀, hrun, hp⟩ := exists_run _ _ _ _ h
  exact ⟨tr, s, ⟨s₀, tr, h₀, hrun⟩, hp⟩

/-- Whether posting a NAV on a tranche vault passes a test. -/
def posts (nav : ℕ) (p : VaultState → TrancheConfig → VaultState → TrancheConfig → Bool)
    (s : VaultState) : Bool :=
  s.trancheConfig.any fun tc =>
    succeedsWith (updateVaultNav s curator nav trancheAccounts) fun s' =>
      s'.trancheConfig.any fun tc' => p s tc s' tc'

theorem of_posts {nav : ℕ} {s : VaultState}
    {p : VaultState → TrancheConfig → VaultState → TrancheConfig → Bool}
    (h : posts nav p s = true) : ∃ tc s' tc', s.trancheConfig = some tc ∧
      updateVaultNav s curator nav trancheAccounts = .ok s' ∧ s'.trancheConfig = some tc' ∧
      p s tc s' tc' = true := by
  obtain ⟨tc, htc, h⟩ := (Option.any_eq_true _ _).1 h
  obtain ⟨s', hpost, h⟩ := of_succeedsWith h
  obtain ⟨tc', htc', h⟩ := (Option.any_eq_true _ _).1 h
  exact ⟨tc, s', tc', htc, hpost, htc', h⟩

theorem exists_posted (seniorDecimals juniorDecimals : ℕ) (script : List Action) (nav : ℕ)
    (p : VaultState → TrancheConfig → VaultState → TrancheConfig → Bool)
    (h : passes seniorDecimals juniorDecimals script (fun _ => posts nav p) = true) :
    ∃ s tc s' tc', VaultState.IsReachable s ∧ s.trancheConfig = some tc ∧
      updateVaultNav s curator nav trancheAccounts = .ok s' ∧ s'.trancheConfig = some tc' ∧
      p s tc s' tc' = true := by
  obtain ⟨-, s, hs, hp⟩ := exists_reachable _ _ _ _ h
  obtain ⟨tc, s', tc', hposted⟩ := of_posts hp
  exact ⟨s, tc, s', tc', hs, hposted⟩

/-- Whether the request at `k` is in the state's book and approving it passes a test. -/
def approves (k : ℕ) (m : Pubkey) (type : RequestType) (amount version : ℕ)
    (p : Request → TrancheConfig → VaultState → TrancheConfig → Bool) (s : VaultState) : Bool :=
  (s.requests.lookup (address k)).any fun r => s.trancheConfig.any fun tc =>
    succeedsWith (approveRequest s (approval k m) ⟨user, type, amount, 0, version⟩ trancheAccounts)
      fun s' => s'.trancheConfig.any fun tc' => p r tc s' tc'

theorem of_approves {k : ℕ} {m : Pubkey} {type : RequestType} {amount version : ℕ}
    {p : Request → TrancheConfig → VaultState → TrancheConfig → Bool} {s : VaultState}
    (h : approves k m type amount version p s = true) :
    ∃ r tc s' tc', s.requests.lookup (address k) = some r ∧ s.trancheConfig = some tc ∧
      approveRequest s (approval k m) ⟨user, type, amount, 0, version⟩ trancheAccounts = .ok s' ∧
      s'.trancheConfig = some tc' ∧ p r tc s' tc' = true := by
  obtain ⟨r, hr, h⟩ := (Option.any_eq_true _ _).1 h
  obtain ⟨tc, htc, h⟩ := (Option.any_eq_true _ _).1 h
  obtain ⟨s', happrove, h⟩ := of_succeedsWith h
  obtain ⟨tc', htc', h⟩ := (Option.any_eq_true _ _).1 h
  exact ⟨r, tc, s', tc', hr, htc, happrove, htc', h⟩

end AsyncVault.Scenario
