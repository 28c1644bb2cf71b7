/-
AsyncVault/ShareMint.lean

Which share mint a request is for, and the bookkeeping that depends on it.

A plain vault has one share mint; a tranche vault has a senior and a junior one
and a configuration account that must come first among the remaining accounts.
`validateRequestShareMint` settles the question for every request instruction
and hands the handlers the tranche's recorded NAV and a copy of the
configuration.

Two pieces of bookkeeping hang on the answer.  FIFO order is kept by the vault's
extensions on a plain vault and by per-lane counters of the tranche
configuration on a tranche vault (`advanceQueue`, `nextRequestId`).  And an
approval predicts the tranche's supply after the request is claimed
(`postApprovalSupply`), both for the junior-ratio guard and for the supply cache.
-/
import AsyncVault.State

namespace AsyncVault

open Checked TokenLedger FixedPoint

/-! ### Share mint of a request -/

/-- The copy of the tranche configuration that request handlers work with. -/
structure TrancheRequestInfo where
  seniorShareMint : Pubkey
  juniorShareMint : Pubkey
  seniorNav : ℕ
  juniorNav : ℕ
  seniorSupply : ℕ
  juniorSupply : ℕ
  minJuniorRatioBps : ℕ
  minRequestAmounts : RequestLimits
  maxRequestAmounts : RequestLimits

structure RequestShareMintContext where
  consumedAccounts : ℕ
  trancheNav : Option ℕ
  trancheInfo : Option TrancheRequestInfo

def TrancheConfig.requestInfo (tc : TrancheConfig) : TrancheRequestInfo where
  seniorShareMint := tc.seniorShareMint
  juniorShareMint := tc.juniorShareMint
  seniorNav := tc.seniorNav
  juniorNav := tc.juniorNav
  seniorSupply := tc.seniorSupply
  juniorSupply := tc.juniorSupply
  minJuniorRatioBps := tc.minJuniorRatioBps
  minRequestAmounts := tc.minRequestAmounts
  maxRequestAmounts := tc.maxRequestAmounts

def validateRequestShareMint (s : VaultState) (selectedShareMint : Pubkey)
    (remaining : List AccountInfo) : Result RequestShareMintContext :=
  match s.vault.trancheConfig with
  | none => do
    ensure .invalidShareMint (selectedShareMint = s.vault.shareMint)
    pure ⟨0, none, none⟩
  | some expected => do
    let info ← okOr (.async .missingRequiredAccount) remaining.head?
    ensure .invalidVault (info.key = expected)
    ensure .invalidVault (expected = s.trancheConfigPda)
    let tc ← s.loadTrancheConfig info
    ensure .invalidVault (tc.vault = s.key)
    let trancheNav ←
      (if selectedShareMint = tc.seniorShareMint then
        pure tc.seniorNav
      else if selectedShareMint = tc.juniorShareMint then
        pure tc.juniorNav
      else
        .error (.async .invalidShareMint) : Result ℕ)
    pure ⟨1, some trancheNav, some tc.requestInfo⟩

/-- The NAV a request is priced at: the tranche's recorded NAV when there is a
positive one, the vault's otherwise. -/
def settlementNav (trancheNav : Option ℕ) (vaultNav : ℕ) : ℕ :=
  (trancheNav.filter fun nav => 0 < nav).getD vaultNav

/-- The limit of a lane: senior or junior, deposit or redeem. -/
def RequestLimits.get (limits : RequestLimits) (isSenior : Bool) : RequestType → ℕ
  | .deposit => if isSenior then limits.seniorDeposit else limits.juniorDeposit
  | .redeem => if isSenior then limits.seniorRedeem else limits.juniorRedeem

def enforceTrancheRequestLimits (context : RequestShareMintContext) (selectedShareMint : Pubkey)
    (requestType : RequestType) (amount : ℕ) : Result Unit :=
  match context.trancheInfo with
  | none => pure ()
  | some info => do
    let isSenior ←
      (if selectedShareMint = info.seniorShareMint then
        pure true
      else if selectedShareMint = info.juniorShareMint then
        pure false
      else
        .error (.async .invalidShareMint) : Result Bool)
    let minAmount := info.minRequestAmounts.get isSenior requestType
    ensure .trancheRequestAmountBelowMinimum (minAmount = 0 ∨ minAmount ≤ amount)
    let maxAmount := info.maxRequestAmounts.get isSenior requestType
    ensure .trancheRequestAmountAboveMaximum (maxAmount = 0 ∨ amount ≤ maxAmount)

/-! ### Queue order -/

/-- The writable tranche configuration among the remaining accounts. -/
def writableTrancheConfig (s : VaultState) (info : Option AccountInfo) :
    Result TrancheConfig := do
  let info ← okOr (.async .missingRequiredAccount) info
  ensure .missingRequiredAccount info.isWritable
  s.loadTrancheConfig info

/-- Count a new request in its queue, if it has one, and return its id. -/
def nextRequestId (s : VaultState) (context : RequestShareMintContext)
    (selectedShareMint : Pubkey) (requestType : RequestType) (remaining : List AccountInfo) :
    Result (VaultState × Option ℕ) :=
  if context.trancheInfo.isSome then
    if s.extensions.hasFifoQueue requestType then do
      let tc ← writableTrancheConfig s remaining.head?
      let (tc, id) ← tc.nextQueueRequestId selectedShareMint requestType
      pure ({ s with trancheConfig := some tc }, some id)
    else
      pure (s, none)
  else
    let (extensions, id) := s.extensions.nextQueueRequestId requestType
    pure ({ s with extensions := extensions }, id)

/-- Process a request in its queue, if it has one: it must be next in order. -/
def advanceQueue (s : VaultState) (context : RequestShareMintContext)
    (selectedShareMint : Pubkey) (r : Request) (remaining : List AccountInfo) :
    Result VaultState :=
  if context.trancheInfo.isSome then
    if s.extensions.hasFifoQueue r.requestType then do
      let current ← writableTrancheConfig s remaining.head?
      let id ← okOr (.async .uninitializedExtension) (r.queueId r.requestType)
      let tc ← current.checkAndAdvanceQueue selectedShareMint r.requestType id
      pure { s with trancheConfig := some tc }
    else
      pure s
  else do
    let extensions ← s.extensions.checkAndAdvanceQueue r.requestType r
    pure { s with extensions := extensions }

/-! ### Predicted supplies -/

/-- The supply of a tranche once an approved request is settled, from the cached
supply and the live supply as the request's creation left it. -/
def postApprovalSupply (cachedSupply liveSupplyAfterRequest : ℕ) (requestType : RequestType)
    (shareDelta : ℕ) : Result ℕ :=
  match requestType with
  | .deposit => add arithmetic u64 (max cachedSupply liveSupplyAfterRequest) shareDelta
  | .redeem => do
    let liveSupplyBeforeRequest ← add arithmetic u64 liveSupplyAfterRequest shareDelta
    sub arithmetic (max cachedSupply liveSupplyBeforeRequest) shareDelta

/-- Refuse a senior deposit or a junior redemption that would leave junior less
than the configured share of the tranches' value.  Returns the remaining
accounts it did not consume. -/
def maybeEnforceJuniorRatioFloor (s : VaultState) (selectedShareMint : Pubkey)
    (requestType : RequestType) (shareDelta : ℕ) (trancheInfo : Option TrancheRequestInfo)
    (remaining : List AccountInfo) : Result (List AccountInfo) :=
  match trancheInfo with
  | none => pure remaining
  | some info =>
    if info.minJuniorRatioBps = 0 then
      pure remaining
    else if (requestType = .deposit ∧ selectedShareMint = info.seniorShareMint) ∨
        (requestType = .redeem ∧ selectedShareMint = info.juniorShareMint) then do
      let seniorInfo ← okOr (.async .missingRequiredAccount) remaining[0]?
      let juniorInfo ← okOr (.async .missingRequiredAccount) remaining[1]?
      ensure .invalidShareMint (seniorInfo.key = info.seniorShareMint)
      ensure .invalidShareMint (juniorInfo.key = info.juniorShareMint)
      let senior ← s.tokenMintInfo seniorInfo
      let junior ← s.tokenMintInfo juniorInfo
      let seniorSupply ←
        (if selectedShareMint = info.seniorShareMint then
          postApprovalSupply info.seniorSupply senior.supply requestType shareDelta
        else
          pure (max senior.supply info.seniorSupply) : Result ℕ)
      let juniorSupply ←
        (if selectedShareMint = info.juniorShareMint then
          postApprovalSupply info.juniorSupply junior.supply requestType shareDelta
        else
          pure (max junior.supply info.juniorSupply) : Result ℕ)
      let seniorNav := settlementNav (some info.seniorNav) s.vault.nav
      let juniorNav := settlementNav (some info.juniorNav) s.vault.nav
      let seniorAssets ← assetsFromSupply seniorSupply senior.decimals seniorNav
      let juniorAssets ← assetsFromSupply juniorSupply junior.decimals juniorNav
      let totalAssets ← add arithmetic u128 seniorAssets juniorAssets
      if totalAssets = 0 then
        pure (remaining.drop 2)
      else do
        let scaled ← mul arithmetic u128 juniorAssets maxBps
        let juniorRatioBps ← div arithmetic scaled totalAssets
        ensure .juniorRatioBelowMinimum (info.minJuniorRatioBps ≤ juniorRatioBps)
        pure (remaining.drop 2)
    else
      pure remaining

/-- Record the predicted supply of the selected tranche in the cache. -/
def updateTrancheSupplyCache (s : VaultState) (selectedShareMint : Pubkey)
    (requestType : RequestType) (shareDelta selectedLiveSupplyAfterRequest : ℕ)
    (trancheInfo : Option TrancheRequestInfo) (trancheConfigInfo : Option AccountInfo) :
    Result VaultState :=
  match trancheInfo with
  | none => pure s
  | some info => do
    let tc ← writableTrancheConfig s trancheConfigInfo
    if selectedShareMint = info.seniorShareMint then do
      let supply ← postApprovalSupply info.seniorSupply selectedLiveSupplyAfterRequest
        requestType shareDelta
      pure { s with trancheConfig := some { tc with seniorSupply := supply } }
    else if selectedShareMint = info.juniorShareMint then do
      let supply ← postApprovalSupply info.juniorSupply selectedLiveSupplyAfterRequest
        requestType shareDelta
      pure { s with trancheConfig := some { tc with juniorSupply := supply } }
    else
      pure { s with trancheConfig := some tc }

end AsyncVault
