/-
AsyncVault/ConfigSteps.lean

What a configuration instruction can do.

Configuration comes in a few shapes.  Before the vault is initialised its
extensions are added and it may be split (`Divided`).  A change of the vault's
fields, of a fee or of an extension (`Change`) is made directly or waits in one of
three queues, read here as one (`VaultState.pending`), until it is executed or
cancelled.  The rest moves roles, pauses the vault, or lists and removes assets
(`Listed`, `Removed`).

`Configured` says for every instruction what it leaves and what it has checked;
what later files know of the configuration is read off its cases.
-/
import AsyncVault.Program

namespace AsyncVault

open Checked TokenLedger Function

variable {s s' : VaultState} {v v' : Vault} {authority account m : Pubkey}

/-! ### Tranches -/

/-- The hand-over of the second share mint leaves the vault in control of both. -/
theorem handOverShareMint_ok {ctx : InitializeTranches} {token : Ledger Pubkey}
    {senior junior : Mint Pubkey} (hs : s.token.mints ctx.seniorShareMint = some senior)
    (hj : s.token.mints ctx.juniorShareMint = some junior) (hkey : ctx.mintAuthority ≠ s.key)
    (h : (if ctx.seniorShareMint = s.vault.shareMint then do
        requireMintOwnedBy senior s.key
        cpi (s.token.setMintAuthority ctx.juniorShareTokenProgram ctx.juniorShareMint
          ctx.mintAuthority (some s.key))
      else do
        requireMintOwnedBy junior s.key
        cpi (s.token.setMintAuthority ctx.seniorShareTokenProgram ctx.seniorShareMint
          ctx.mintAuthority (some s.key)) : Result (Ledger Pubkey)) = .ok token) :
    Untouched s.key s.token token ∧ token.accounts = s.token.accounts ∧
      (∀ m, token.supply m = s.token.supply m) ∧
      ∀ m, m = ctx.seniorShareMint ∨ m = ctx.juniorShareMint → token.Mintable m s.key := by
  -- the vault holds the mint it was created with and is handed the other one
  split at h
  all_goals
    simp only [bind_eq_ok, requireMintOwnedBy, ensure_eq_ok, cpi_eq_ok] at h
    obtain ⟨-, howned, h⟩ := h
    have hover := setMintAuthority_handedOver h hkey
    refine ⟨hover.toUntouched, hover.accounts, hover.supply_eq, ?_⟩
  · rintro m (rfl | rfl)
    · exact hover.mintable _ ⟨senior, hs, howned⟩
    · exact hover.mintable_self
  · rintro m (rfl | rfl)
    · exact hover.mintable_self
    · exact hover.mintable _ ⟨junior, hj, howned⟩

/-- The state a split leaves. -/
def VaultState.split (s : VaultState) (token : Ledger Pubkey) (tc : TrancheConfig) : VaultState :=
  { s with
    token := token
    trancheConfig := some tc
    vault := { s.vault with trancheConfig := some s.trancheConfigPda } }

/-- What a split has checked, and what it does. -/
structure Divided (s s' : VaultState) (ctx : InitializeTranches) (args : InitializeTranchesArgs)
    (token : Ledger Pubkey) : Prop where
  state : s' = s.split token (initialTrancheConfig s.key ctx args)
  signer : ctx.mintAuthority ≠ s.key
  handed : ∃ program m, s.token.setMintAuthority program m ctx.mintAuthority (some s.key) =
    .ok token
  untouched : Untouched s.key s.token token
  accounts : token.accounts = s.token.accounts
  lasting : Lasting s.token token
  supply : ∀ m, token.supply m = s.token.supply m
  mintable : ∀ m, m = ctx.seniorShareMint ∨ m = ctx.juniorShareMint → token.Mintable m s.key
  absent : s.trancheConfig = none
  undivided : s.vault.trancheConfig = none
  uninitialized : s.vault.initialized = false
  performanceFee : s.vault.performanceFeeBps = 0
  minJuniorRatio : args.minJuniorRatioBps ≤ maxBps
  distinct : ctx.seniorShareMint ≠ ctx.juniorShareMint
  shareMint : ctx.seniorShareMint = s.vault.shareMint ∨ ctx.juniorShareMint = s.vault.shareMint
  unissued : ∀ m, m = ctx.seniorShareMint ∨ m = ctx.juniorShareMint → s.token.supply m = 0

theorem initializeTranches_divides {ctx : InitializeTranches} {args : InitializeTranchesArgs}
    (h : initializeTranches s ctx args = .ok s') : ∃ token, Divided s s' ctx args token := by
  simp only [initializeTranches, bind_eq_ok, VaultState.signer_eq_ok, VaultState.mintAccount_eq_ok,
    require_eq_ok, ensure_eq_ok, Vault.assertUninitialized, Option.isNone_iff_eq_none,
    pure_eq_ok] at h
  obtain ⟨-, hkey, -, -, senior, hs, junior, hj, -, habsent, -, hinit, -, -, -, hundivided, -, hfee,
    -, ⟨-, hratio⟩, -, -, -, -, -, -, -, -, -, hne, -, -, -, -, -, hshare, -, ⟨hs0, hj0⟩, -, -, -,
    -, -, -, -, -, token, htoken, hs'⟩ := h
  obtain ⟨hun, hacc, hsup, hmint⟩ := handOverShareMint_ok hs hj hkey htoken
  obtain ⟨program, m, hhanded⟩ : ∃ program m,
      s.token.setMintAuthority program m ctx.mintAuthority (some s.key) = .ok token := by
    split at htoken
    all_goals
      simp only [bind_eq_ok, cpi_eq_ok] at htoken
      obtain ⟨-, -, htoken⟩ := htoken
      exact ⟨_, _, htoken⟩
  refine ⟨token, hs'.symm, hkey, ⟨program, m, hhanded⟩, hun, hacc, setMintAuthority_lasting hhanded,
    hsup, hmint, habsent, hundivided, hinit, hfee, hratio, hne, hshare, ?_⟩
  rintro m (rfl | rfl)
  · rw [supply_of_some hs, hs0]
  · rw [supply_of_some hj, hj0]

/-! ### Assets -/

/-- The state with another entry for the asset `m`. -/
def VaultState.setAsset (s : VaultState) (token : Ledger Pubkey) (m : Pubkey)
    (va : Option VaultAsset) (count : ℕ) : VaultState :=
  { s with
    token := token
    vaultAssets := update s.vaultAssets m va
    vault := { s.vault with approvedAssetCount := count } }

/-- What listing an asset has checked, and what it does. -/
structure Listed (s s' : VaultState) (ctx : AddVaultAsset) (depositCap : ℕ)
    (token₁ token : Ledger Pubkey) : Prop where
  state : s' = s.setAsset token ctx.assetMint (some
    { vault := s.key
      assetMint := ctx.assetMint
      reserve := ctx.reserve
      pendingVault := ctx.pendingVault
      idleBalance := 0
      deployedBalance := 0
      pendingDepositAmount := 0
      depositCap := depositCap
      managerWindowStartSlot := 0
      managerWindowAmount := 0 }) (s.vault.approvedAssetCount + 1)
  curator : ctx.authority = s.vault.curator
  untimed : s.vault.timelockDelaySlots = 0
  free : s.vaultAssets ctx.assetMint = none
  secondary : ctx.assetMint ≠ s.vault.assetMint
  reserve : s.token.initializeAccount ctx.assetTokenProgram ctx.reserve ctx.assetMint s.key =
    .ok token₁
  pendingVault : token₁.initializeAccount ctx.assetTokenProgram ctx.pendingVault ctx.assetMint
    s.key = .ok token

theorem addVaultAsset_listed {ctx : AddVaultAsset} {depositCap : ℕ}
    (h : addVaultAsset s ctx depositCap = .ok s') :
    ∃ token₁ token, Listed s s' ctx depositCap token₁ token := by
  simp only [addVaultAsset, Vault.assertCurator, bind_eq_ok, require_eq_ok, ensure_eq_ok, cpi_eq_ok,
    Option.isNone_iff_eq_none, pure_eq_ok] at h
  obtain ⟨-, -, y, -, -, hnew, token₁, h₁, token, h₂, -, hcurator, -, huntimed, -, hprim, -, -, -,
    -, rfl⟩ := h
  exact ⟨token₁, token, rfl, hcurator, huntimed, hnew, hprim, h₁, h₂⟩

/-- What removing an asset has checked, and what it does. -/
structure Removed (s s' : VaultState) (m : Pubkey) (va : VaultAsset) (token₁ token : Ledger Pubkey)
    (count : ℕ) : Prop where
  state : s' = s.setAsset token m none count
  untimed : s.vault.timelockDelaySlots = 0
  counted : s.vault.approvedAssetCount = count + 1
  found : s.vaultAssets m = some va
  idle : va.idleBalance = 0
  deployed : va.deployedBalance = 0
  pending : va.pendingDepositAmount = 0
  reserveEmpty : s.token.balance va.reserve = 0
  escrowEmpty : s.token.balance va.pendingVault = 0
  reserveSettled : s.token.withheld va.reserve = 0
  escrowSettled : s.token.withheld va.pendingVault = 0
  reserve : s.token.closeAccount va.reserve s.key = .ok token₁
  pendingVault : token₁.closeAccount va.pendingVault s.key = .ok token

theorem removeVaultAsset_removed (h : removeVaultAsset s authority m = .ok s') :
    ∃ va token₁ token count, Removed s s' m va token₁ token count := by
  simp only [removeVaultAsset, bind_eq_ok, okOr_eq_ok, VaultState.tokenAccount_eq_ok,
    ensure_eq_ok, sub_eq_ok, cpi_eq_ok, pure_eq_ok] at h
  obtain ⟨-, -, va, hva, -, -, reserve, ⟨hr, -, -⟩, pending, ⟨hp, -, -⟩, -, -, -, huntimed, -,
    ⟨hidle, hdeployed, hpending, hreserve, hescrow⟩, count, ⟨hle, hcount⟩, token₁, h₁, token, h₂,
    rfl⟩ := h
  have hsettled : s.token.withheld va.pendingVault ≤ 0 :=
    (closeAccount_withheld_le h₁ _).trans (closeAccount_empty h₂).2.le
  exact ⟨va, token₁, token, count, rfl, huntimed, by omega, hva, hidle, hdeployed, hpending,
    (balance_of_some hr).trans hreserve, (balance_of_some hp).trans hescrow,
    (closeAccount_empty h₁).2, Nat.le_zero.1 hsettled, h₁, h₂⟩

/-- Where other accounts are, what a removal closes does not matter. -/
theorem Removed.accounts {va : VaultAsset} {token₁ token : Ledger Pubkey} {count : ℕ}
    (h : Removed s s' m va token₁ token count) :
    token.mints = s.token.mints ∧ ∀ a, a ≠ va.reserve → a ≠ va.pendingVault →
      token.accounts a = s.token.accounts a := by
  obtain ⟨-, -, -, ht₁⟩ := closeAccount_ok h.reserve
  obtain ⟨-, -, -, ht₂⟩ := closeAccount_ok h.pendingVault
  refine ⟨by rw [ht₂, ht₁], fun a hr hp => ?_⟩
  simp only [ht₂, ht₁, update_of_ne hp, update_of_ne hr]

/-! ### Changes -/

/-- A change that can wait in a queue. -/
inductive Change
  | vault (args : UpdateVaultArgs)
  | fee (args : FeeUpdateArgs)
  | extension (args : ExtensionUpdateArgs)

inductive ChangeKind
  | vault
  | fee
  | extension
  deriving DecidableEq

def VaultExtensions.withFee (ext : VaultExtensions) (args : FeeUpdateArgs) : VaultExtensions :=
  match args.kind with
  | .deposit => { ext with depositFee := some args.fee }
  | .withdrawal => { ext with withdrawalFee := some args.fee }

def VaultExtensions.withUpdate (ext : VaultExtensions) (args : ExtensionUpdateArgs) :
    VaultExtensions :=
  match args.kind with
  | .minSubscription => { ext with minSubscription := some args.threshold }
  | .minRedemption => { ext with minRedemption := some args.threshold }
  | .pausableSubscriptions => { ext with pausableSubscriptions := some args.paused }
  | .pausableRedemptions => { ext with pausableRedemptions := some args.paused }

/-- The state with a change made. -/
def VaultState.change (s : VaultState) : Change → VaultState
  | .vault args => { s with vault := s.vault.withArgs args }
  | .fee args => { s with extensions := s.extensions.withFee args }
  | .extension args => { s with extensions := s.extensions.withUpdate args }

/-- What the rules ask of a change. -/
def VaultState.Accepts (s : VaultState) : Change → Prop
  | .vault args => (s.vault.withArgs args).ConfigValid
  | _ => True

/-- A change that needs no queue under a timelock. -/
def Change.Untimelocked : Change → Prop
  | .vault args => args.hasTimelockedFields = false
  | _ => False

def PendingUpdate.map {α β : Type} (f : α → β) (p : PendingUpdate α) : PendingUpdate β :=
  ⟨p.vault, p.queuedBy, p.createdSlot, p.etaSlot, f p.args⟩

/-- The three queues as one. -/
def VaultState.pending (s : VaultState) : ChangeKind → Pubkey → Option (PendingUpdate Change)
  | .vault, k => (s.pendingVaultUpdates k).map (.map .vault)
  | .fee, k => (s.pendingFeeUpdates k).map (.map .fee)
  | .extension, k => (s.pendingExtensionUpdates k).map (.map .extension)

/-- The state with other queues. -/
def VaultState.withQueues (s : VaultState)
    (vault : Pubkey → Option (PendingUpdate UpdateVaultArgs))
    (fee : Pubkey → Option (PendingUpdate FeeUpdateArgs))
    (extension : Pubkey → Option (PendingUpdate ExtensionUpdateArgs)) : VaultState :=
  { s with
    pendingVaultUpdates := vault
    pendingFeeUpdates := fee
    pendingExtensionUpdates := extension }

/-- The queues with one entry changed. -/
def setPending (pending : ChangeKind → Pubkey → Option (PendingUpdate Change)) (kind : ChangeKind)
    (account : Pubkey) (p : Option (PendingUpdate Change)) :
    ChangeKind → Pubkey → Option (PendingUpdate Change) :=
  fun kind' account' => if kind' = kind ∧ account' = account then p else pending kind' account'

namespace ConfigInstruction

/-- The signer and the change of an instruction that makes one directly. -/
def changes : ConfigInstruction → Option (Pubkey × Change)
  | .updateVault authority args => some (authority, .vault args)
  | .updateFee authority args => some (authority, .fee args)
  | .updateExtension authority args => some (authority, .extension args)
  | _ => none

/-- The signer, the account and the change of an instruction that queues one. -/
def queues : ConfigInstruction → Option (Pubkey × ChangeKind × Pubkey × Change)
  | .queueVaultUpdate authority account args => some (authority, .vault, account, .vault args)
  | .queueFeeUpdate authority account args => some (authority, .fee, account, .fee args)
  | .queueExtensionUpdate authority account args =>
    some (authority, .extension, account, .extension args)
  | _ => none

/-- The account of the change an instruction executes. -/
def executes : ConfigInstruction → Option (ChangeKind × Pubkey)
  | .executeVaultUpdate _ account => some (.vault, account)
  | .executeFeeUpdate _ account => some (.fee, account)
  | .executeExtensionUpdate _ account => some (.extension, account)
  | _ => none

/-- The account of the change an instruction cancels. -/
def cancels : ConfigInstruction → Option (ChangeKind × Pubkey)
  | .cancelVaultUpdate _ account => some (.vault, account)
  | .cancelFeeUpdate _ account => some (.fee, account)
  | .cancelExtensionUpdate _ account => some (.extension, account)
  | _ => none

end ConfigInstruction

/-! ### The steps -/

/-- The instructions that move no tokens and touch no account but those of the
configuration. -/
def ConfigInstruction.IsSetting : ConfigInstruction → Prop
  | .initializeTranches .. | .addVaultAsset .. | .removeVaultAsset .. => False
  | _ => True

/-- **What a configuration instruction can do.** -/
inductive Configured (s : VaultState) : ConfigInstruction → VaultState → Prop
  | started {authority shareMint} (uninitialized : s.vault.initialized = false) :
      Configured s (.initializeVault authority shareMint)
        { s with vault := { s.vault with initialized := true } }
  | divided {ctx args token} (uninitialized : s.vault.initialized = false)
      (undivided : s.vault.trancheConfig = none) (unpaid : s.vault.performanceFeeBps = 0) :
      Configured s (.initializeTranches ctx args)
        (s.split token (initialTrancheConfig s.key ctx args))
  | extended {i ext bps} (uninitialized : s.vault.initialized = false)
      (queues : ∀ t, ext.queue t = s.extensions.queue t ∨ ext.queue t = some ⟨0, 0⟩)
      (fee : bps = s.vault.instantRedemptionFeeBps ∨ bps ≤ maxBps) :
      Configured s i { s with
        extensions := ext
        vault := { s.vault with instantRedemptionFeeBps := bps } }
  | changed {i authority c} (changes : i.changes = some (authority, c))
      (curator : authority = s.vault.curator)
      (allowed : 0 < s.vault.timelockDelaySlots → c.Untimelocked) (accepted : s.Accepts c) :
      Configured s i (s.change c)
  | queued {i authority kind account c vault fee extension}
      (queues : i.queues = some (authority, kind, account, c))
      (curator : authority = s.vault.curator) (delayed : 0 < s.vault.timelockDelaySlots)
      (free : s.pending kind account = none)
      (pending : (s.withQueues vault fee extension).pending = setPending s.pending kind account
        (some ⟨s.key, authority, s.clock.slot, s.clock.slot + s.vault.timelockDelaySlots, c⟩)) :
      Configured s i (s.withQueues vault fee extension)
  | executed {i kind account p vault fee extension} (executes : i.executes = some (kind, account))
      (found : s.pending kind account = some p) (ready : p.etaSlot ≤ s.clock.slot)
      (queuer : p.queuedBy = s.vault.curator)
      (pending : (s.withQueues vault fee extension).pending =
        setPending s.pending kind account none) (accepted : s.Accepts p.args) :
      Configured s i ((s.change p.args).withQueues vault fee extension)
  | canceled {i kind account vault fee extension} (cancels : i.cancels = some (kind, account))
      (pending : (s.withQueues vault fee extension).pending =
        setPending s.pending kind account none) :
      Configured s i (s.withQueues vault fee extension)
  | paused {breaker} :
      Configured s (.pauseVault breaker) { s with vault := { s.vault with paused := true } }
  | invited {authority newAuthority} :
      Configured s (.inviteNewAuthority authority newAuthority)
        { s with vault := { s.vault with pendingAuthority := some newAuthority } }
  | accepted {newAuthority} {replace : Pubkey → Pubkey}
      (replaces : ∀ role, replace role = if role = s.vault.authority then newAuthority else role) :
      Configured s (.acceptAuthorityInvitation newAuthority) { s with vault := { s.vault with
        authority := newAuthority
        curator := newAuthority
        manager := replace s.vault.manager
        hotManager := replace s.vault.hotManager
        fulfiller := replace s.vault.fulfiller
        breaker := replace s.vault.breaker
        pendingAuthority := none } }
  | routed {i config} : Configured s i { s with protocolFeeConfig := config }
  | listed {i token assets count} (relists : ¬i.IsSetting)
      (free : s.vault.timelockDelaySlots = 0) :
      Configured s i { s with
        token := token
        vaultAssets := assets
        vault := { s.vault with approvedAssetCount := count } }

/-! ### Queues -/

theorem pending_update_vault (s : VaultState) (account : Pubkey)
    (p : Option (PendingUpdate UpdateVaultArgs)) :
    (s.withQueues (update s.pendingVaultUpdates account p) s.pendingFeeUpdates
      s.pendingExtensionUpdates).pending =
      setPending s.pending .vault account (p.map (.map .vault)) := by
  funext kind k
  cases kind <;> simp only [VaultState.pending, VaultState.withQueues, setPending, update_apply]
  · by_cases hk : k = account <;> simp [hk]
  · simp
  · simp

theorem pending_update_fee (s : VaultState) (account : Pubkey)
    (p : Option (PendingUpdate FeeUpdateArgs)) :
    (s.withQueues s.pendingVaultUpdates (update s.pendingFeeUpdates account p)
      s.pendingExtensionUpdates).pending =
      setPending s.pending .fee account (p.map (.map .fee)) := by
  funext kind k
  cases kind <;> simp only [VaultState.pending, VaultState.withQueues, setPending, update_apply]
  · simp
  · by_cases hk : k = account <;> simp [hk]
  · simp

theorem pending_update_extension (s : VaultState) (account : Pubkey)
    (p : Option (PendingUpdate ExtensionUpdateArgs)) :
    (s.withQueues s.pendingVaultUpdates s.pendingFeeUpdates
      (update s.pendingExtensionUpdates account p)).pending =
      setPending s.pending .extension account (p.map (.map .extension)) := by
  funext kind k
  cases kind <;> simp only [VaultState.pending, VaultState.withQueues, setPending, update_apply]
  · simp
  · simp
  · by_cases hk : k = account <;> simp [hk]

theorem queueChecks_ok {α : Type} {existing : Option (PendingUpdate α)} {u : Unit}
    (h : queueChecks s authority existing = .ok u) :
    existing = none ∧ authority = s.vault.curator ∧ 0 < s.vault.timelockDelaySlots := by
  simp only [queueChecks, Vault.assertCurator, bind_eq_ok, require_eq_ok, ensure_eq_ok] at h
  obtain ⟨-, -, -, hfree, -, hcurator, hdelay⟩ := h
  exact ⟨Option.isNone_iff_eq_none.1 hfree, hcurator, hdelay⟩

theorem pendingUpdate_ok {α : Type} {args : α} {p : PendingUpdate α}
    (h : pendingUpdate s authority args = .ok p) :
    p = ⟨s.key, authority, s.clock.slot, s.clock.slot + s.vault.timelockDelaySlots, args⟩ := by
  simp only [pendingUpdate, bind_eq_ok, add_eq_ok, pure_eq_ok] at h
  obtain ⟨_, ⟨-, rfl⟩, rfl⟩ := h
  rfl

theorem executeChecks_ok {α : Type} {existing : Option (PendingUpdate α)} {args : α}
    (h : executeChecks s authority existing = .ok args) :
    ∃ p, existing = some p ∧ p.etaSlot ≤ s.clock.slot ∧ p.queuedBy = s.vault.curator ∧
      p.args = args := by
  simp only [executeChecks, bind_eq_ok, okOr_eq_ok, ensure_eq_ok, pure_eq_ok] at h
  obtain ⟨-, -, p, hp, -, -, -, hready, -, hqueuer, hargs⟩ := h
  exact ⟨p, hp, hready, hqueuer, hargs⟩

/-! ### Every instruction takes its step -/

theorem initVaultExtension_ok {α : Type} {current : Option α} {ext : VaultExtensions}
    (h : initVaultExtension s authority current ext = .ok s') :
    s' = { s with extensions := ext } := by
  simp only [initVaultExtension, bind_eq_ok, pure_eq_ok] at h
  obtain ⟨-, -, -, -, -, -, -, -, rfl⟩ := h
  rfl

theorem updateVaultExtension_ok {α : Type} {current : Option α} {ext : VaultExtensions}
    (h : updateVaultExtension s current ext = .ok s') : s' = { s with extensions := ext } := by
  simp only [updateVaultExtension, bind_eq_ok, pure_eq_ok] at h
  obtain ⟨-, -, rfl⟩ := h
  rfl

theorem applyVaultUpdate_eq_ok {args : UpdateVaultArgs} :
    applyVaultUpdate v args = .ok v' ↔ (v.withArgs args).ConfigValid ∧ v' = v.withArgs args := by
  simp only [applyVaultUpdate, bind_eq_ok, pure_eq_ok, Vault.validateConfig_eq_ok]
  constructor
  · rintro ⟨-, hvalid, heq⟩
    exact ⟨hvalid, heq.symm⟩
  · rintro ⟨hvalid, heq⟩
    exact ⟨(), hvalid, heq.symm⟩

theorem applyFeeUpdate_change {args : FeeUpdateArgs} (h : applyFeeUpdate s args = .ok s') :
    s' = s.change (.fee args) := by
  simp only [applyFeeUpdate, bind_eq_ok] at h
  obtain ⟨-, -, h⟩ := h
  unfold VaultState.change VaultExtensions.withFee
  split at h <;> next hkind => simp only [hkind]; exact updateVaultExtension_ok h

theorem applyExtensionUpdate_change {args : ExtensionUpdateArgs}
    (h : applyExtensionUpdate s args = .ok s') : s' = s.change (.extension args) := by
  simp only [applyExtensionUpdate, bind_eq_ok] at h
  obtain ⟨-, -, h⟩ := h
  unfold VaultState.change VaultExtensions.withUpdate
  split at h <;> next hkind => simp only [hkind]; exact updateVaultExtension_ok h

theorem basicExtensionAccounts_ok {u : Unit} (h : basicExtensionAccounts s authority = .ok u) :
    authority = s.vault.curator ∧ s.vault.timelockDelaySlots = 0 := by
  simp only [basicExtensionAccounts, bind_eq_ok, ensure_eq_ok] at h
  obtain ⟨-, -, -, hcurator, hfree⟩ := h
  exact ⟨hcurator, hfree⟩

/-- An extension is added before initialisation, a queue with its counters at zero. -/
theorem initVaultExtension_extended {i : ConfigInstruction} {α : Type} {current : Option α}
    {ext : VaultExtensions}
    (hqueues : ∀ t, ext.queue t = s.extensions.queue t ∨ ext.queue t = some ⟨0, 0⟩)
    (h : initVaultExtension s authority current ext = .ok s') : Configured s i s' := by
  obtain rfl := initVaultExtension_ok h
  simp only [initVaultExtension, Vault.assertUninitialized, bind_eq_ok, ensure_eq_ok] at h
  obtain ⟨-, -, -, -, -, huninit, -⟩ := h
  have hstep : Configured s i { s with
      extensions := ext
      vault := { s.vault with instantRedemptionFeeBps := s.vault.instantRedemptionFeeBps } } :=
    .extended huninit hqueues (.inl rfl)
  exact hstep

theorem initializeTranches_divided {ctx : InitializeTranches} {args : InitializeTranchesArgs}
    (h : initializeTranches s ctx args = .ok s') :
    Configured s (.initializeTranches ctx args) s' := by
  obtain ⟨token, hd⟩ := initializeTranches_divides h
  rw [hd.state]
  exact .divided hd.uninitialized hd.undivided hd.performanceFee

/-- **Every configuration instruction takes its step.** -/
theorem execConfig_configured {i : ConfigInstruction} (h : execConfig s i = .ok s') :
    Configured s i s' := by
  have hkept : ∀ ext : VaultExtensions, (∀ t, ext.queue t = s.extensions.queue t) →
      ∀ t, ext.queue t = s.extensions.queue t ∨ ext.queue t = some ⟨0, 0⟩ :=
    fun ext h t => .inl (h t)
  cases i <;> simp only [execConfig] at h
  case initializeVault =>
    simp only [initializeVault, Vault.assertUninitialized, bind_eq_ok, ensure_eq_ok,
      pure_eq_ok] at h
    obtain ⟨-, -, -, -, -, -, -, huninit, rfl⟩ := h
    exact .started huninit
  case initializeTranches => exact initializeTranches_divided h
  case initDepositFee =>
    simp only [initDepositFee, bind_eq_ok] at h
    obtain ⟨-, -, h⟩ := h
    exact initVaultExtension_extended (hkept _ fun t => by cases t <;> rfl) h
  case initWithdrawalFee =>
    simp only [initWithdrawalFee, bind_eq_ok] at h
    obtain ⟨-, -, h⟩ := h
    exact initVaultExtension_extended (hkept _ fun t => by cases t <;> rfl) h
  case initPausableSubscriptions =>
    exact initVaultExtension_extended (hkept _ fun t => by cases t <;> rfl) h
  case initPausableRedemptions =>
    exact initVaultExtension_extended (hkept _ fun t => by cases t <;> rfl) h
  case initMinSubscription =>
    exact initVaultExtension_extended (hkept _ fun t => by cases t <;> rfl) h
  case initMinRedemption =>
    exact initVaultExtension_extended (hkept _ fun t => by cases t <;> rfl) h
  case initializeExternallyManagedWithdrawals =>
    exact initVaultExtension_extended (hkept _ fun t => by cases t <;> rfl) h
  case initializeSubscriptionQueue =>
    refine initVaultExtension_extended (fun t => ?_) h
    cases t
    · exact .inr rfl
    · exact .inl rfl
  case initializeRedemptionQueue =>
    refine initVaultExtension_extended (fun t => ?_) h
    cases t
    · exact .inl rfl
    · exact .inr rfl
  case initializeInstantSettlement =>
    simp only [initializeInstantSettlement, bind_eq_ok, ensure_eq_ok, pure_eq_ok] at h
    obtain ⟨-, hbps, -, -, -, -, -, -, s₁, h₁, rfl⟩ := h
    obtain rfl := initVaultExtension_ok h₁
    simp only [initVaultExtension, Vault.assertUninitialized, bind_eq_ok, ensure_eq_ok] at h₁
    obtain ⟨-, -, -, -, -, huninit, -⟩ := h₁
    exact .extended huninit (hkept _ fun t => by cases t <;> rfl) (.inr hbps)
  case updateFee =>
    simp only [updateFee, bind_eq_ok] at h
    obtain ⟨_, hdirect, h⟩ := h
    obtain ⟨hcurator, hfree⟩ := basicExtensionAccounts_ok hdirect
    rw [applyFeeUpdate_change h]
    exact .changed rfl hcurator (fun hpos => absurd hfree hpos.ne') trivial
  case updateExtension =>
    simp only [updateExtension, bind_eq_ok] at h
    obtain ⟨_, hdirect, h⟩ := h
    obtain ⟨hcurator, hfree⟩ := basicExtensionAccounts_ok hdirect
    rw [applyExtensionUpdate_change h]
    exact .changed rfl hcurator (fun hpos => absurd hfree hpos.ne') trivial
  case updateVault =>
    simp only [updateVault, Vault.assertCurator, bind_eq_ok, ensure_eq_ok, pure_eq_ok] at h
    obtain ⟨-, -, -, hcurator, -, hallowed, v, hv, rfl⟩ := h
    obtain ⟨hvalid, rfl⟩ := applyVaultUpdate_eq_ok.1 hv
    refine .changed (c := .vault _) rfl hcurator (fun hpos => ?_) hvalid
    exact Bool.eq_false_of_not_eq_true fun htimelocked => hallowed ⟨hpos, htimelocked⟩
  case queueVaultUpdate =>
    simp only [queueVaultUpdate, bind_eq_ok, pure_eq_ok] at h
    obtain ⟨_, hchecks, -, -, pending, hpending, rfl⟩ := h
    obtain ⟨hfree, hcurator, hdelay⟩ := queueChecks_ok hchecks
    obtain rfl := pendingUpdate_ok hpending
    exact .queued rfl hcurator hdelay (by simp [VaultState.pending, hfree])
      (pending_update_vault s _ _)
  case queueFeeUpdate =>
    simp only [queueFeeUpdate, bind_eq_ok, pure_eq_ok] at h
    obtain ⟨_, hchecks, -, -, pending, hpending, rfl⟩ := h
    obtain ⟨hfree, hcurator, hdelay⟩ := queueChecks_ok hchecks
    obtain rfl := pendingUpdate_ok hpending
    exact .queued rfl hcurator hdelay (by simp [VaultState.pending, hfree])
      (pending_update_fee s _ _)
  case queueExtensionUpdate =>
    simp only [queueExtensionUpdate, bind_eq_ok, pure_eq_ok] at h
    obtain ⟨_, hchecks, -, -, -, -, pending, hpending, rfl⟩ := h
    obtain ⟨hfree, hcurator, hdelay⟩ := queueChecks_ok hchecks
    obtain rfl := pendingUpdate_ok hpending
    exact .queued rfl hcurator hdelay (by simp [VaultState.pending, hfree])
      (pending_update_extension s _ _)
  case executeVaultUpdate =>
    simp only [executeVaultUpdate, bind_eq_ok, pure_eq_ok] at h
    obtain ⟨args, hchecks, -, -, v, hv, rfl⟩ := h
    obtain ⟨p, hp, hready, hqueuer, rfl⟩ := executeChecks_ok hchecks
    obtain ⟨hvalid, rfl⟩ := applyVaultUpdate_eq_ok.1 hv
    exact .executed (p := p.map .vault) rfl (by simp [VaultState.pending, hp]) hready hqueuer
      (pending_update_vault s _ none) hvalid
  case executeFeeUpdate =>
    simp only [executeFeeUpdate, bind_eq_ok, pure_eq_ok] at h
    obtain ⟨args, hchecks, s₁, h₁, rfl⟩ := h
    obtain ⟨p, hp, hready, hqueuer, rfl⟩ := executeChecks_ok hchecks
    rw [applyFeeUpdate_change h₁]
    exact .executed (p := p.map .fee) rfl (by simp [VaultState.pending, hp]) hready hqueuer
      (pending_update_fee s _ none) trivial
  case executeExtensionUpdate =>
    simp only [executeExtensionUpdate, bind_eq_ok, pure_eq_ok] at h
    obtain ⟨args, hchecks, s₁, h₁, rfl⟩ := h
    obtain ⟨p, hp, hready, hqueuer, rfl⟩ := executeChecks_ok hchecks
    rw [applyExtensionUpdate_change h₁]
    exact .executed (p := p.map .extension) rfl (by simp [VaultState.pending, hp]) hready hqueuer
      (pending_update_extension s _ none) trivial
  case cancelVaultUpdate =>
    simp only [cancelVaultUpdate, bind_eq_ok, pure_eq_ok] at h
    obtain ⟨-, -, rfl⟩ := h
    exact .canceled rfl (pending_update_vault s _ none)
  case cancelFeeUpdate =>
    simp only [cancelFeeUpdate, bind_eq_ok, pure_eq_ok] at h
    obtain ⟨-, -, rfl⟩ := h
    exact .canceled rfl (pending_update_fee s _ none)
  case cancelExtensionUpdate =>
    simp only [cancelExtensionUpdate, bind_eq_ok, pure_eq_ok] at h
    obtain ⟨-, -, rfl⟩ := h
    exact .canceled rfl (pending_update_extension s _ none)
  case pauseVault =>
    simp only [pauseVault, bind_eq_ok, pure_eq_ok] at h
    obtain ⟨-, -, -, -, rfl⟩ := h
    exact .paused
  case inviteNewAuthority =>
    simp only [inviteNewAuthority, bind_eq_ok, pure_eq_ok] at h
    obtain ⟨-, -, -, -, rfl⟩ := h
    exact .invited
  case acceptAuthorityInvitation =>
    simp only [acceptAuthorityInvitation, bind_eq_ok, ensure_eq_ok, pure_eq_ok] at h
    obtain ⟨-, -, pending, -, -, rfl, rfl⟩ := h
    exact .accepted fun _ => rfl
  case initializeProtocolFeeConfig =>
    simp only [initializeProtocolFeeConfig, bind_eq_ok, pure_eq_ok] at h
    obtain ⟨-, -, -, -, -, -, rfl⟩ := h
    exact .routed
  case updateProtocolFeeConfig =>
    simp only [updateProtocolFeeConfig, bind_eq_ok, pure_eq_ok] at h
    obtain ⟨-, -, config, -, -, -, -, -, rfl⟩ := h
    exact .routed
  case addVaultAsset =>
    obtain ⟨token₁, token, hl⟩ := addVaultAsset_listed h
    obtain rfl := hl.state
    exact .listed id hl.untimed
  case removeVaultAsset =>
    obtain ⟨va, token₁, token, count, hremoved⟩ := removeVaultAsset_removed h
    obtain rfl := hremoved.state
    exact .listed id hremoved.untimed

/-- What an instruction executes was queued, and is gone. -/
theorem execConfig_executes {i : ConfigInstruction} {kind : ChangeKind}
    (h : execConfig s i = .ok s') (hi : i.executes = some (kind, account)) :
    (s.pending kind account).isSome ∧ s'.pending kind account = none := by
  cases i <;> simp only [ConfigInstruction.executes, reduceCtorEq, Option.some.injEq,
    Prod.mk.injEq] at hi
  case executeVaultUpdate =>
    obtain ⟨rfl, rfl⟩ := hi
    simp only [execConfig, executeVaultUpdate, bind_eq_ok, pure_eq_ok] at h
    obtain ⟨args, hchecks, -, -, v, hv, rfl⟩ := h
    obtain ⟨p, hp, -⟩ := executeChecks_ok hchecks
    simp [VaultState.pending, hp]
  case executeFeeUpdate =>
    obtain ⟨rfl, rfl⟩ := hi
    simp only [execConfig, executeFeeUpdate, bind_eq_ok, pure_eq_ok] at h
    obtain ⟨args, hchecks, s₁, -, rfl⟩ := h
    obtain ⟨p, hp, -⟩ := executeChecks_ok hchecks
    simp [VaultState.pending, hp]
  case executeExtensionUpdate =>
    obtain ⟨rfl, rfl⟩ := hi
    simp only [execConfig, executeExtensionUpdate, bind_eq_ok, pure_eq_ok] at h
    obtain ⟨args, hchecks, s₁, -, rfl⟩ := h
    obtain ⟨p, hp, -⟩ := executeChecks_ok hchecks
    simp [VaultState.pending, hp]

end AsyncVault
