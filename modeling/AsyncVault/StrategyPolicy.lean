/-
AsyncVault/StrategyPolicy.lean

Strategy policies and the calls they authorise, and the whole program as a
machine.

A policy commits a Merkle root of the calls one strategist may have the vault
sign.  The curator updates it directly or, under a timelock, through a queue of
its own; every update and every emergency pause moves the policy's version, and
a queued update executes only at the version it was queued at.

Two things about a managed call are left open.  What the Merkle check accepts is
a parameter `verify`, so that every statement holds for whatever it accepts; and
what the called program does to the tokens is part of the action.  The runtime
lets no other program write the accounts of this one.
-/
import AsyncVault.Venue

namespace AsyncVault

open Checked TokenLedger KeyedStore Function Machine

/-! ### Rules -/

namespace StrategyPolicy

def assertBound (p : StrategyPolicy) (vault strategist : Pubkey) : Result Unit := do
  ensure .invalidVault (p.vault = vault)
  ensure .invalidStrategyPolicy (p.strategist = strategist)

def assertNotExecuting (p : StrategyPolicy) : Result Unit :=
  ensure .reentrantStrategyCall (p.executing = false)

def assertActive (p : StrategyPolicy) : Result Unit := do
  ensure .strategyPolicyPaused (p.paused = false)
  ensure .emptyMerkleRoot (p.merkleRoot ≠ 0)
  p.assertNotExecuting

end StrategyPolicy

def validateStrategyPolicyUpdate (args : StrategyPolicyUpdateArgs) : Result Unit :=
  ensure .emptyMerkleRoot (args.paused = true ∨ args.merkleRoot ≠ 0)

def applyStrategyPolicyUpdate (p : StrategyPolicy) (args : StrategyPolicyUpdateArgs) :
    Result StrategyPolicy := do
  p.assertNotExecuting
  validateStrategyPolicyUpdate args
  let version ← add arithmetic u64 p.version 1
  pure { p with merkleRoot := args.merkleRoot, paused := args.paused, version := version }

/-- A declared policy account of the vault. -/
def ManagedState.strategyPolicy (s : ManagedState) (strategist : Pubkey) :
    Result StrategyPolicy := do
  let p ← okOr (.account .accountNotInitialized) (s.policies strategist)
  ensure .invalidStrategyPolicy (p.vault = s.core.key)
  pure p

/-! ### Updates -/

def initializeStrategyPolicy (s : ManagedState) (authority strategist : Pubkey) :
    Result ManagedState := do
  s.core.signer authority
  require (.account .accountInUse) (s.policies strategist).isNone
  s.core.vault.assertCurator authority
  ensure .invalidStrategyPolicy (strategist ≠ Pubkey.default)
  pure { s with policies := update s.policies strategist (some
    { vault := s.core.key
      strategist := strategist
      merkleRoot := 0
      version := 0
      paused := true
      executing := false }) }

def updateStrategyPolicy (s : ManagedState) (authority strategist : Pubkey)
    (args : StrategyPolicyUpdateArgs) : Result ManagedState := do
  s.core.signer authority
  let policy ← s.strategyPolicy strategist
  s.core.vault.assertCurator authority
  ensure .timelockRequired (s.core.vault.timelockDelaySlots = 0)
  let policy ← applyStrategyPolicyUpdate policy args
  pure { s with policies := update s.policies strategist (some policy) }

def queueStrategyPolicyUpdate (s : ManagedState) (authority strategist account : Pubkey)
    (args : StrategyPolicyUpdateArgs) : Result ManagedState := do
  s.core.signer authority
  let policy ← s.strategyPolicy strategist
  require (.account .accountInUse) (s.pendingPolicyUpdates account).isNone
  s.core.vault.assertCurator authority
  ensure .timelockNotConfigured (0 < s.core.vault.timelockDelaySlots)
  validateStrategyPolicyUpdate args
  let etaSlot ← add arithmetic u64 s.core.clock.slot s.core.vault.timelockDelaySlots
  pure { s with pendingPolicyUpdates := update s.pendingPolicyUpdates account (some
    { vault := s.core.key
      strategyPolicy := strategist
      queuedBy := authority
      createdSlot := s.core.clock.slot
      etaSlot := etaSlot
      expectedVersion := policy.version
      args := args }) }

def executeStrategyPolicyUpdate (s : ManagedState) (executor strategist account : Pubkey) :
    Result ManagedState := do
  s.core.signer executor
  let policy ← s.strategyPolicy strategist
  let pending ← okOr (.account .accountNotInitialized) (s.pendingPolicyUpdates account)
  ensure .invalidTimelockChange (pending.vault = s.core.key)
  ensure .invalidTimelockChange (pending.strategyPolicy = strategist)
  ensure .timelockNotReady (pending.etaSlot ≤ s.core.clock.slot)
  ensure .staleTimelockAuthority (pending.queuedBy = s.core.vault.curator)
  ensure .staleStrategyPolicyVersion (policy.version = pending.expectedVersion)
  let policy ← applyStrategyPolicyUpdate policy pending.args
  pure { s with
    policies := update s.policies strategist (some policy)
    pendingPolicyUpdates := update s.pendingPolicyUpdates account none }

def cancelStrategyPolicyUpdate (s : ManagedState) (authority account : Pubkey) :
    Result ManagedState := do
  s.core.signer authority
  let pending ← okOr (.account .accountNotInitialized) (s.pendingPolicyUpdates account)
  ensure .invalidTimelockChange (pending.vault = s.core.key)
  s.core.vault.assertCurator authority
  pure { s with pendingPolicyUpdates := update s.pendingPolicyUpdates account none }

/-- The emergency stop of the curator or the breaker. -/
def pauseStrategyPolicy (s : ManagedState) (authority strategist : Pubkey) :
    Result ManagedState := do
  s.core.signer authority
  let policy ← s.strategyPolicy strategist
  ensure .unauthorizedSigner
    (authority = s.core.vault.curator ∨ authority = s.core.vault.breaker)
  policy.assertNotExecuting
  let version ← add arithmetic u64 policy.version 1
  pure { s with policies := update s.policies strategist (some
    { policy with paused := true, version := version }) }

def closeStrategyPolicy (s : ManagedState) (authority strategist : Pubkey) :
    Result ManagedState := do
  s.core.signer authority
  let policy ← s.strategyPolicy strategist
  s.core.vault.assertCurator authority
  policy.assertNotExecuting
  pure { s with policies := update s.policies strategist none }

/-! ### Managed calls -/

inductive PolicyOperator
  | ingestInstruction (offset length : BitVec 16)
  | ingestAccount (index : BitVec 8)
  | managerLimitAmount (offset : BitVec 16)
  deriving DecidableEq

structure PolicyAccountMeta where
  key : Pubkey
  isSigner : Bool
  isWritable : Bool
  deriving DecidableEq

/-- What a leaf of the Merkle tree commits to. -/
structure StrategyLeaf where
  vault : Pubkey
  strategist : Pubkey
  policyVersion : BitVec 64
  targetProgram : Pubkey
  instructionData : List (BitVec 8)
  accounts : List PolicyAccountMeta
  operators : List PolicyOperator
  deriving DecidableEq

/-- The outcome of a Merkle check, given leaf, proof and root: the amount a call declares for
the manager limit, if any. -/
abbrev MerkleCheck := StrategyLeaf → List (BitVec 256) → BitVec 256 → Result (Option ℕ)

structure ManageVault where
  strategist : Pubkey
  shareMint : Pubkey
  venueEntry : VenueEntryKey
  targetProgram : Pubkey
  targetExecutable : Bool

structure ManageVaultArgs where
  policyVersion : ℕ
  instructionData : List (BitVec 8)
  operators : List PolicyOperator
  proof : List (BitVec 256)

def maxManageCpiAccounts : ℕ := 64
def maxManageIxDataLen : ℕ := 1024

/-- The privileges the called program gets: the vault signs and is read-only. -/
def policyAccounts (vault : Pubkey) (remaining : List PolicyAccountMeta) :
    List PolicyAccountMeta :=
  remaining.map fun a =>
    { key := a.key
      isSigner := a.isSigner || a.key = vault
      isWritable := a.isWritable && a.key ≠ vault }

/-- `effect` is what the called program does to the tokens, or its failure. -/
def manageVaultWithMerkleVerification (verify : MerkleCheck) (s : ManagedState)
    (ctx : ManageVault) (args : ManageVaultArgs) (remaining : List PolicyAccountMeta)
    (effect : Ledger Pubkey → Result (Ledger Pubkey)) : Result ManagedState := do
  s.core.signer ctx.strategist
  let shareMint ← s.core.mintAccount ctx.shareMint
  ensure .invalidShareMint (ctx.shareMint = s.core.vault.shareMint)
  let entry ← s.venueEntry ctx.venueEntry
  let venue ← s.vaultVenue ctx.venueEntry
  let policy ← s.strategyPolicy ctx.strategist
  s.core.vault.assertUnpausedAndInitialized
  policy.assertBound s.core.key ctx.strategist
  policy.assertActive
  ensure .staleStrategyPolicyVersion (args.policyVersion = policy.version)
  entry.assertActive
  venue.assertActive
  venue.assertManagerAuthorized s.core.vault ctx.strategist
  ensure .targetProgramMismatch (ctx.targetProgram = entry.targetProgram)
  ensure .targetProgramMismatch (ctx.targetProgram = venue.targetProgram)
  ensure .targetProgramNotExecutable ctx.targetExecutable
  ensure .unsafeTargetProgram (ctx.targetProgram ≠ s.programId)
  ensure .instructionDataTooLarge (args.instructionData.length ≤ maxManageIxDataLen)
  ensure .tooManyCpiAccounts (remaining.length ≤ maxManageCpiAccounts)
  entry.assertInstructionAllowed args.instructionData
  let limitAmount ← verify
    { vault := s.core.key
      strategist := ctx.strategist
      policyVersion := .ofNat 64 args.policyVersion
      targetProgram := ctx.targetProgram
      instructionData := args.instructionData
      accounts := policyAccounts s.core.key remaining
      operators := args.operators } args.proof policy.merkleRoot
  let vault ←
    (match limitAmount with
    | some amount => s.core.vault.consumeManagerRollingLimit amount s.core.clock.slot
    | none => pure s.core.vault)
  let token ← effect s.core.token
  let reloaded ← okOr (.account .invalidAccountData) (token.mints ctx.shareMint)
  ensure .shareSupplyChanged (reloaded.supply = shareMint.supply)
  pure { s with
    core := { s.core with vault := vault, token := token }
    policies := update s.policies ctx.strategist (some { policy with executing := false }) }

/-! ### The whole program -/

/-- Instructions on venues and positions. -/
inductive VenueInstruction
  | registerVenue (registryAuthority : Pubkey) (args : RegisterVenueArgs)
  | setVenueEntryPaused (registryAuthority : Pubkey) (entry : VenueEntryKey) (paused : Bool)
  | approveVaultVenue (authority : Pubkey) (entry : VenueEntryKey) (recipientAuthority : Pubkey)
  | removeVaultVenue (authority : Pubkey) (entry : VenueEntryKey)
  | createVenuePosition (ctx : VenuePosition)
  | deployVenuePosition (ctx : VenuePosition) (amount : ℕ)
  | pullVenuePosition (ctx : VenuePosition) (amount : ℕ)
  | removeVenuePosition (ctx : VenuePosition)
  | withdrawAssets (ctx : WithdrawAssets) (amount : ℕ)

/-- Instructions on strategy policies. -/
inductive PolicyInstruction
  | initializeStrategyPolicy (authority strategist : Pubkey)
  | updateStrategyPolicy (authority strategist : Pubkey) (args : StrategyPolicyUpdateArgs)
  | queueStrategyPolicyUpdate (authority strategist account : Pubkey)
      (args : StrategyPolicyUpdateArgs)
  | executeStrategyPolicyUpdate (executor strategist account : Pubkey)
  | cancelStrategyPolicyUpdate (authority account : Pubkey)
  | pauseStrategyPolicy (authority strategist : Pubkey)
  | closeStrategyPolicy (authority strategist : Pubkey)

inductive ManagedAction
  | core (a : Action)
  | venue (i : VenueInstruction)
  | policy (i : PolicyInstruction)
  | manageVault (ctx : ManageVault) (args : ManageVaultArgs) (remaining : List PolicyAccountMeta)
      (effect : Ledger Pubkey → Result (Ledger Pubkey))

def execVenue (s : ManagedState) : VenueInstruction → Result ManagedState
  | .registerVenue registryAuthority args => registerVenue s registryAuthority args
  | .setVenueEntryPaused registryAuthority entry paused =>
    setVenueEntryPaused s registryAuthority entry paused
  | .approveVaultVenue authority entry recipientAuthority =>
    approveVaultVenue s authority entry recipientAuthority
  | .removeVaultVenue authority entry => removeVaultVenue s authority entry
  | .createVenuePosition ctx => createVenuePosition s ctx
  | .deployVenuePosition ctx amount => deployVenuePosition s ctx amount
  | .pullVenuePosition ctx amount => pullVenuePosition s ctx amount
  | .removeVenuePosition ctx => removeVenuePosition s ctx
  | .withdrawAssets ctx amount => withdrawAssets s ctx amount

def execPolicy (s : ManagedState) : PolicyInstruction → Result ManagedState
  | .initializeStrategyPolicy authority strategist =>
    initializeStrategyPolicy s authority strategist
  | .updateStrategyPolicy authority strategist args =>
    updateStrategyPolicy s authority strategist args
  | .queueStrategyPolicyUpdate authority strategist account args =>
    queueStrategyPolicyUpdate s authority strategist account args
  | .executeStrategyPolicyUpdate executor strategist account =>
    executeStrategyPolicyUpdate s executor strategist account
  | .cancelStrategyPolicyUpdate authority account => cancelStrategyPolicyUpdate s authority account
  | .pauseStrategyPolicy authority strategist => pauseStrategyPolicy s authority strategist
  | .closeStrategyPolicy authority strategist => closeStrategyPolicy s authority strategist

/-- One transaction of the whole program. -/
def execManaged (verify : MerkleCheck) (s : ManagedState) : ManagedAction → Result ManagedState
  | .core a => do
    let core ← exec s.core a
    pure { s with core := core }
  | .venue i => execVenue s i
  | .policy i => execPolicy s i
  | .manageVault ctx args remaining effect =>
    manageVaultWithMerkleVerification verify s ctx args remaining effect

/-- A vault just created, among whatever venues are registered. -/
structure ManagedState.Created (s : ManagedState) : Prop where
  core : AsyncVault.Created s.core
  vaultVenues : s.vaultVenues = fun _ => none
  positions : s.positions = ∅
  policies : s.policies = fun _ => none
  pendingPolicyUpdates : s.pendingPolicyUpdates = fun _ => none

/-- The states a vault with venues and policies can be in. -/
def ManagedState.IsReachable (verify : MerkleCheck) (s : ManagedState) : Prop :=
  Reachable (execManaged verify) ManagedState.Created s

/-- The runs of a vault with venues and policies. -/
abbrev ManagedRun (verify : MerkleCheck) (s₀ : ManagedState)
    (tr : List (Transition ManagedState ManagedAction)) (s : ManagedState) : Prop :=
  Run (execManaged verify) s₀ tr s

end AsyncVault
