/-
AsyncVault/ManagedScenario.lean

Scripts for a vault with venues and policies.

The stage is the one of `Scenario`, before any venue is registered; `openVenue`
sets one up.  No managed call is authorised on it.
-/
import AsyncVault.Scenario
import AsyncVault.ManagedSteps

namespace AsyncVault.Scenario

open Checked Machine

/-- A vault that has no venues and no policies yet. -/
def unmanaged (s : VaultState) : ManagedState where
  core := s
  programId := address 60
  venueEntries _ := none
  vaultVenues _ := none
  positions := ∅
  policies _ := none
  pendingPolicyUpdates _ := none

def noCalls : MerkleCheck := fun _ _ _ => .error (.async .merkleProofInvalid)

/-- What a vault reaches by itself it also reaches among venues and policies. -/
theorem unmanaged_reachable {s : VaultState} (hs : s.IsReachable) :
    ManagedState.IsReachable noCalls (unmanaged s) := by
  obtain ⟨s₀, tr, h₀, hrun⟩ := hs
  exact ⟨unmanaged s₀, _, ⟨h₀, rfl, rfl, rfl, rfl⟩, ManagedRun.of_core (unmanaged s₀) hrun⟩

/-- Whether a script on a new vault in a given world passes a test. -/
def managedPassesIn (w : World) (ctx : CreateVault) (script : List ManagedAction)
    (p : List (Transition ManagedState ManagedAction) → ManagedState → Bool) : Bool :=
  match createVault w ctx ⟨curator, curator⟩ with
  | .ok s => plays (execManaged noCalls) (unmanaged s) script p
  | .error _ => false

theorem exists_managed_run_in (w : World) (ctx : CreateVault) (script : List ManagedAction)
    (p : List (Transition ManagedState ManagedAction) → ManagedState → Bool)
    (h : managedPassesIn w ctx script p = true) :
    ∃ s₀ tr s, ManagedState.Created s₀ ∧ ManagedRun noCalls s₀ tr s ∧
      tr.map Transition.act = script ∧ p tr s = true := by
  unfold managedPassesIn at h
  split at h
  · next s₀ h₀ =>
    obtain ⟨tr, s, hrun, hacts, hp⟩ := exists_of_plays h
    exact ⟨unmanaged s₀, tr, s, ⟨⟨_, _, _, h₀⟩, rfl, rfl, rfl, rfl⟩, hrun, hacts, hp⟩
  · cases h

/-- The same on the stage of `Scenario`. -/
def managedPasses (script : List ManagedAction)
    (p : List (Transition ManagedState ManagedAction) → ManagedState → Bool) : Bool :=
  managedPassesIn (world 0 0) accounts script p

theorem exists_managed_run (script : List ManagedAction)
    (p : List (Transition ManagedState ManagedAction) → ManagedState → Bool)
    (h : managedPasses script p = true) :
    ∃ s₀ tr s, ManagedState.Created s₀ ∧ ManagedRun noCalls s₀ tr s ∧
      tr.map Transition.act = script ∧ p tr s = true :=
  exists_managed_run_in _ _ _ _ h

/-- A run that starts where a first script ends. -/
theorem exists_managed_run_from (script script' : List ManagedAction)
    (p : ManagedState → List (Transition ManagedState ManagedAction) → ManagedState → Bool)
    (h : managedPasses script (fun _ s =>
      plays (execManaged noCalls) s script' (p s)) = true) :
    ∃ s₁ tr s, ManagedState.IsReachable noCalls s₁ ∧ ManagedRun noCalls s₁ tr s ∧
      tr.map Transition.act = script' ∧ p s₁ tr s = true := by
  obtain ⟨s₀, tr₁, s₁, h₀, hrun₁, -, hp⟩ := exists_managed_run _ _ h
  obtain ⟨tr, s, hrun, hacts, hp⟩ := exists_of_plays hp
  exact ⟨s₁, tr, s, ⟨s₀, tr₁, h₀, hrun₁⟩, hrun, hacts, hp⟩

/-- One more action where a script ends. -/
theorem exists_managed_step (script : List ManagedAction) (a : ManagedAction)
    (p : ManagedState → ManagedState → Bool)
    (h : managedPasses script (fun _ s =>
      match execManaged noCalls s a with
      | .ok s' => p s s'
      | .error _ => false) = true) :
    ∃ s s', ManagedState.IsReachable noCalls s ∧ execManaged noCalls s a = .ok s' ∧
      p s s' = true := by
  obtain ⟨s₀, tr, s, h₀, hrun, -, hp⟩ := exists_managed_run _ _ h
  split at hp
  · next s' hs' => exact ⟨s, s', ⟨s₀, tr, h₀, hrun⟩, hs', hp⟩
  · cases hp

/-- Whether a script passes a test where some managed calls are authorised. -/
def policyPasses (verify : MerkleCheck) (script : List ManagedAction) (p : ManagedState → Bool) :
    Bool :=
  match createVault (world 0 0) accounts ⟨curator, curator⟩ with
  | .ok s => plays (execManaged verify) (unmanaged s) script fun _ => p
  | .error _ => false

theorem exists_managed_state (verify : MerkleCheck) (script : List ManagedAction)
    (p : ManagedState → Bool) (h : policyPasses verify script p = true) :
    ∃ s, ManagedState.IsReachable verify s ∧ p s = true := by
  unfold policyPasses at h
  split at h
  · next s₀ h₀ =>
    obtain ⟨tr, s, hrun, -, hp⟩ := exists_of_plays h
    exact ⟨s, ⟨unmanaged s₀, tr, ⟨⟨_, _, _, h₀⟩, rfl, rfl, rfl, rfl⟩, hrun⟩, hp⟩
  · cases h

/-- Changes of the vault wait for a number of slots. -/
def delayChanges (slots : ℕ) : ManagedAction :=
  .core (.config (.updateVault curator { timelockDelaySlots := some slots }))

def waitUntil (slot : ℕ) : ManagedAction := .core (.world (.advanceClock ⟨slot, 0⟩))

/-! ### A venue -/

def venue : VenueEntryKey := ⟨curator, 1⟩

def position : VenuePosition where
  authority := curator
  assetMint := asset
  vaultAsset := none
  venueEntry := venue
  vaultTokenAccount := reserve
  positionTokenAccount := address 27
  assetTokenProgram := .token

/-- Register a venue, approve it with the user as recipient, and open a position there. -/
def openVenue : List ManagedAction :=
  [.venue (.registerVenue curator
      { venueId := 1
        targetProgram := address 61
        allowedDiscriminators := [List.replicate 8 0]
        routineSafe := true }),
    .venue (.approveVaultVenue curator venue user),
    .venue (.createVenuePosition position)]

/-- A policy of the curator's own, the root of its tree given. -/
def openPolicy (root : BitVec 256) : List ManagedAction :=
  [.policy (.initializeStrategyPolicy curator curator),
    .policy (.updateStrategyPolicy curator curator ⟨root, false⟩)]

/-- A call at the venue under that policy. -/
def call : ManageVault where
  strategist := curator
  shareMint := senior
  venueEntry := venue
  targetProgram := address 61
  targetExecutable := true

def callArgs (operators : List PolicyOperator) : ManageVaultArgs where
  policyVersion := 1
  instructionData := List.replicate 8 0
  operators := operators
  proof := []

def deploy (amount : ℕ) : ManagedAction := .venue (.deployVenuePosition position amount)

def allowWithdrawals : Action := .config (.initializeExternallyManagedWithdrawals curator)

/-- Withdraw assets from the reserve for the user. -/
def withdraw (amount : ℕ) : ManagedAction :=
  .venue (.withdrawAssets
    { authority := curator
      assetMint := asset
      venueEntry := venue
      vaultTokenAccount := reserve
      recipientTokenAccount := userAsset
      assetTokenProgram := .token } amount)

end AsyncVault.Scenario
