/-
AsyncVault/ManagedSteps.lean

What venues, policies and managed calls do to the rest of the vault.

Venue instructions and managed calls move tokens and consume rolling limits;
settings, queued changes and the docket stay.  Policy instructions touch policies
and their queue only (`PolicyMoved`).  So a step of the whole program is, for the core of the
vault, an instruction of the core or no work at all (`CoreStep`).
-/
import AsyncVault.Operations
import AsyncVault.StrategyPolicy
import AsyncVault.VenueHandlers

namespace AsyncVault

open Checked TokenLedger KeyedStore Function Machine

variable {s s' : ManagedState} {c c' : VaultState} {verify : MerkleCheck} {strategist : Pubkey}

/-! ### Rolling limits -/

theorem Vault.consumeManagerRollingLimit_ok {v v' : Vault} {amount slot : ℕ}
    (h : v.consumeManagerRollingLimit amount slot = .ok v') :
    ∃ start used, v' = { v with managerWindowStartSlot := start, managerWindowAmount := used } := by
  simp only [consumeManagerRollingLimit, bind_eq_ok, pure_eq_ok] at h
  obtain ⟨⟨start, used⟩, -, rfl⟩ := h
  exact ⟨start, used, rfl⟩

theorem Vault.consumeExternalWithdrawRollingLimit_ok {v v' : Vault} {amount slot : ℕ}
    (h : v.consumeExternalWithdrawRollingLimit amount slot = .ok v') :
    ∃ start used, v' = { v with
      externalWithdrawWindowStartSlot := start
      externalWithdrawWindowAmount := used } := by
  simp only [consumeExternalWithdrawRollingLimit, bind_eq_ok, pure_eq_ok] at h
  obtain ⟨⟨start, used⟩, -, rfl⟩ := h
  exact ⟨start, used, rfl⟩

/-! ### Steps without work -/

/-- No setting changed, and neither did the docket or what the lanes are read off. -/
structure Idle (c c' : VaultState) : Prop extends Worked c c' c.docket where
  sameExtensions : c'.extensions = c.extensions
  sameTranches : c'.trancheConfig = c.trancheConfig

theorem Idle.refl (c : VaultState) : Idle c c := ⟨.refl c, rfl, rfl⟩

theorem Idle.withToken (h : Idle c c') (token : Ledger Pubkey) :
    Idle c (c'.put token c'.requests) :=
  ⟨h.toWorked.withToken token, h.sameExtensions, h.sameTranches⟩

/-- Consuming a rolling limit. -/
theorem Idle.withVault (h : Idle c c') {v : Vault} (hsettings : v.settings = c'.vault.settings)
    (hdocket : (c'.withVault v).docket = c'.docket) : Idle c (c'.withVault v) :=
  ⟨h.toWorked.withVault hsettings hdocket, h.sameExtensions, h.sameTranches⟩

theorem accountMovement_idle {ctx : VenuePosition} {p : Position} {amount : ℕ}
    {unavailable : AsyncVaultError} {available : VaultAsset → ℕ}
    {move : PositionLedger → Result PositionLedger} {ledger : Option PositionLedger}
    (h : accountMovement s ctx p amount unavailable available move = .ok (c, ledger)) :
    Idle s.core c := by
  obtain ⟨start, used, h, -⟩ | ⟨m, va, start, used, l, h, -⟩ := accountMovement_iff.1 h
  · obtain rfl := h.state
    exact (Idle.refl s.core).withVault rfl rfl
  · obtain rfl := h.state
    exact ⟨⟨⟨rfl, rfl, rfl, rfl, rfl, rfl, rfl⟩, rfl⟩, rfl, rfl⟩

/-- A venue instruction is no work for the core and leaves the policies. -/
theorem execVenue_idle {i : VenueInstruction} (h : execVenue s i = .ok s') :
    Idle s.core s'.core ∧ s'.policies = s.policies ∧
      s'.pendingPolicyUpdates = s.pendingPolicyUpdates := by
  cases i with
  | registerVenue registryAuthority args =>
    obtain ⟨-, -, -, rfl⟩ := registerVenue_iff.1 h
    exact ⟨.refl _, rfl, rfl⟩
  | setVenueEntryPaused registryAuthority entry paused =>
    obtain ⟨-, e, -, -, rfl⟩ := setVenueEntryPaused_iff.1 h
    exact ⟨.refl _, rfl, rfl⟩
  | approveVaultVenue authority entry recipientAuthority =>
    obtain ⟨e, h⟩ := approveVaultVenue_iff.1 h
    obtain rfl := h.state
    exact ⟨.refl _, rfl, rfl⟩
  | removeVaultVenue authority entry =>
    obtain ⟨v, h⟩ := removeVaultVenue_iff.1 h
    obtain rfl := h.state
    exact ⟨.refl _, rfl, rfl⟩
  | createVenuePosition ctx =>
    obtain ⟨e, v, token, h⟩ := createVenuePosition_iff.1 h
    obtain rfl := h.state
    exact ⟨(Idle.refl s.core).withToken token, rfl, rfl⟩
  -- a movement charges a window, and moves tokens
  | deployVenuePosition ctx amount =>
    obtain ⟨p, core, ledger, token, n, h⟩ := deployVenuePosition_iff.1 h
    obtain rfl := h.state
    exact ⟨(accountMovement_idle h.charged).withToken token, rfl, rfl⟩
  | pullVenuePosition ctx amount =>
    obtain ⟨p, core, ledger, token, n, h⟩ := pullVenuePosition_iff.1 h
    obtain rfl := h.state
    exact ⟨(accountMovement_idle h.charged).withToken token, rfl, rfl⟩
  | removeVenuePosition ctx =>
    obtain ⟨p, asset, v, token, h⟩ := removeVenuePosition_iff.1 h
    obtain rfl := h.state
    exact ⟨(Idle.refl s.core).withToken token, rfl, rfl⟩
  | withdrawAssets ctx amount =>
    obtain ⟨asset, e, v, w, token, h⟩ := withdrawAssets_iff.1 h
    obtain rfl := h.state
    obtain ⟨start, used, rfl⟩ := Vault.consumeExternalWithdrawRollingLimit_ok h.charged
    -- and so does a withdrawal
    have hwindow := (Idle.refl s.core).withVault
      (v := { s.core.vault with
        externalWithdrawWindowStartSlot := start
        externalWithdrawWindowAmount := used }) rfl rfl
    exact ⟨hwindow.withToken token, rfl, rfl⟩

/-! ### Policies -/

def ManagedState.withPolicy (s : ManagedState) (strategist : Pubkey) (p : Option StrategyPolicy) :
    ManagedState :=
  { s with policies := update s.policies strategist p }

def ManagedState.withPendingPolicy (s : ManagedState) (account : Pubkey)
    (p : Option PendingStrategyPolicyUpdate) : ManagedState :=
  { s with pendingPolicyUpdates := update s.pendingPolicyUpdates account p }

/-- A policy after an update. -/
def StrategyPolicy.updated (p : StrategyPolicy) (args : StrategyPolicyUpdateArgs) :
    StrategyPolicy :=
  { p with merkleRoot := args.merkleRoot, paused := args.paused, version := p.version + 1 }

/-- **What a policy instruction does.** -/
inductive PolicyMoved (s : ManagedState) : PolicyInstruction → ManagedState → Prop
  | created {authority strategist} (fresh : s.policies strategist = none) :
      PolicyMoved s (.initializeStrategyPolicy authority strategist)
        (s.withPolicy strategist (some ⟨s.core.key, strategist, 0, 0, true, false⟩))
  | updated {authority strategist args p} (found : s.policies strategist = some p)
      (free : s.core.vault.timelockDelaySlots = 0) :
      PolicyMoved s (.updateStrategyPolicy authority strategist args)
        (s.withPolicy strategist (some (p.updated args)))
  | queued {authority strategist account args p} (found : s.policies strategist = some p)
      (curator : authority = s.core.vault.curator)
      (delayed : 0 < s.core.vault.timelockDelaySlots)
      (free : s.pendingPolicyUpdates account = none) :
      PolicyMoved s (.queueStrategyPolicyUpdate authority strategist account args)
        (s.withPendingPolicy account (some
          { vault := s.core.key
            strategyPolicy := strategist
            queuedBy := authority
            createdSlot := s.core.clock.slot
            etaSlot := s.core.clock.slot + s.core.vault.timelockDelaySlots
            expectedVersion := p.version
            args := args }))
  | executed {executor strategist account p pending} (found : s.policies strategist = some p)
      (queued : s.pendingPolicyUpdates account = some pending)
      (target : pending.strategyPolicy = strategist)
      (ready : pending.etaSlot ≤ s.core.clock.slot)
      (queuer : pending.queuedBy = s.core.vault.curator)
      (version : p.version = pending.expectedVersion) :
      PolicyMoved s (.executeStrategyPolicyUpdate executor strategist account)
        ((s.withPolicy strategist (some (p.updated pending.args))).withPendingPolicy account none)
  | canceled {authority account} :
      PolicyMoved s (.cancelStrategyPolicyUpdate authority account)
        (s.withPendingPolicy account none)
  | paused {authority strategist p} (found : s.policies strategist = some p) :
      PolicyMoved s (.pauseStrategyPolicy authority strategist)
        (s.withPolicy strategist (some { p with paused := true, version := p.version + 1 }))
  | closed {authority strategist p} (found : s.policies strategist = some p) :
      PolicyMoved s (.closeStrategyPolicy authority strategist) (s.withPolicy strategist none)

theorem ManagedState.strategyPolicy_ok {p : StrategyPolicy}
    (h : s.strategyPolicy strategist = .ok p) : s.policies strategist = some p := by
  simp only [ManagedState.strategyPolicy, bind_eq_ok, okOr_eq_ok, ensure_eq_ok, pure_eq_ok] at h
  obtain ⟨_, hp, -, -, rfl⟩ := h
  exact hp

theorem applyStrategyPolicyUpdate_ok {p p' : StrategyPolicy} {args : StrategyPolicyUpdateArgs}
    (h : applyStrategyPolicyUpdate p args = .ok p') : p' = p.updated args := by
  simp only [applyStrategyPolicyUpdate, bind_eq_ok, add_eq_ok, pure_eq_ok] at h
  obtain ⟨-, -, -, -, _, ⟨-, rfl⟩, rfl⟩ := h
  rfl

/-- **Every policy instruction makes its move.** -/
theorem execPolicy_moved {i : PolicyInstruction} (h : execPolicy s i = .ok s') :
    PolicyMoved s i s' := by
  cases i <;>
    simp only [execPolicy, initializeStrategyPolicy, updateStrategyPolicy,
      queueStrategyPolicyUpdate, executeStrategyPolicyUpdate, cancelStrategyPolicyUpdate,
      pauseStrategyPolicy, closeStrategyPolicy, Vault.assertCurator, bind_eq_ok, require_eq_ok,
      ensure_eq_ok, okOr_eq_ok, add_eq_ok, pure_eq_ok] at h
  -- of the checks only those that the move names are used
  case initializeStrategyPolicy =>
    obtain ⟨-, -, -, hfresh, -, -, -, -, rfl⟩ := h
    exact .created (Option.isNone_iff_eq_none.1 hfresh)
  case updateStrategyPolicy =>
    obtain ⟨-, -, p, hp, -, -, -, hfree, p', hp', rfl⟩ := h
    rw [applyStrategyPolicyUpdate_ok hp']
    exact .updated (ManagedState.strategyPolicy_ok hp) hfree
  case queueStrategyPolicyUpdate =>
    obtain ⟨-, -, p, hp, -, hfree, -, hcurator, -, hdelay, -, -, _, ⟨-, rfl⟩, rfl⟩ := h
    exact .queued (ManagedState.strategyPolicy_ok hp) hcurator hdelay
      (Option.isNone_iff_eq_none.1 hfree)
  case executeStrategyPolicyUpdate =>
    obtain ⟨-, -, p, hp, pending, hpending, -, -, -, htarget, -, hready, -, hqueuer, -, hversion,
      p', hp', rfl⟩ := h
    rw [applyStrategyPolicyUpdate_ok hp']
    exact .executed (ManagedState.strategyPolicy_ok hp) hpending htarget hready hqueuer hversion
  case cancelStrategyPolicyUpdate =>
    obtain ⟨-, -, pending, -, -, -, -, -, rfl⟩ := h
    exact .canceled
  case pauseStrategyPolicy =>
    obtain ⟨-, -, p, hp, -, -, -, -, _, ⟨-, rfl⟩, rfl⟩ := h
    exact .paused (ManagedState.strategyPolicy_ok hp)
  case closeStrategyPolicy =>
    obtain ⟨-, -, p, hp, -, -, -, -, rfl⟩ := h
    exact .closed (ManagedState.strategyPolicy_ok hp)

/-- A policy instruction touches policies and their queue only. -/
theorem execPolicy_still {i : PolicyInstruction} (h : execPolicy s i = .ok s') :
    ∃ policies pending,
      s' = { s with policies := policies, pendingPolicyUpdates := pending } := by
  cases execPolicy_moved h <;> exact ⟨_, _, rfl⟩

theorem execPolicy_core {i : PolicyInstruction} (h : execPolicy s i = .ok s') :
    s'.core = s.core := by
  obtain ⟨policies, pending, rfl⟩ := execPolicy_still h
  rfl

/-! ### Managed calls -/

/-- What a managed call checks and charges before the called program runs: the share mint, the
policy and the vault it goes on with. -/
def checkManagedCall (verify : MerkleCheck) (s : ManagedState) (ctx : ManageVault)
    (args : ManageVaultArgs) (remaining : List PolicyAccountMeta) :
    Result (Mint Pubkey × StrategyPolicy × Vault) := do
  s.core.signer ctx.strategist
  let shareMint ← s.core.mintAccount ctx.shareMint
  ensure .invalidShareMint (ctx.shareMint = s.core.vault.shareMint)
  let entry ← s.venueEntry ctx.venueEntry
  let venue ← s.vaultVenue ctx.venueEntry
  let policy ← s.strategyPolicy ctx.strategist
  s.core.vault.assertUnpausedAndInitialized
  policy.assertBound s.core.key ctx.strategist
  policy.assertActive
  ensure .staleStrategyPolicyVersion (args.policyVersion = policy.version)
  entry.assertActive
  venue.assertActive
  venue.assertManagerAuthorized s.core.vault ctx.strategist
  ensure .targetProgramMismatch (ctx.targetProgram = entry.targetProgram)
  ensure .targetProgramMismatch (ctx.targetProgram = venue.targetProgram)
  ensure .targetProgramNotExecutable ctx.targetExecutable
  ensure .unsafeTargetProgram (ctx.targetProgram ≠ s.programId)
  ensure .instructionDataTooLarge (args.instructionData.length ≤ maxManageIxDataLen)
  ensure .tooManyCpiAccounts (remaining.length ≤ maxManageCpiAccounts)
  entry.assertInstructionAllowed args.instructionData
  let limitAmount ← verify
    { vault := s.core.key
      strategist := ctx.strategist
      policyVersion := .ofNat 64 args.policyVersion
      targetProgram := ctx.targetProgram
      instructionData := args.instructionData
      accounts := policyAccounts s.core.key remaining
      operators := args.operators } args.proof policy.merkleRoot
  let vault ←
    (match limitAmount with
    | some amount => s.core.vault.consumeManagerRollingLimit amount s.core.clock.slot
    | none => pure s.core.vault)
  pure (shareMint, policy, vault)

/-- A managed call is its checks, the called program, and one look at the share supply. -/
theorem manageVault_eq (verify : MerkleCheck) (s : ManagedState) (ctx : ManageVault)
    (args : ManageVaultArgs) (remaining : List PolicyAccountMeta)
    (effect : Ledger Pubkey → Result (Ledger Pubkey)) :
    manageVaultWithMerkleVerification verify s ctx args remaining effect = (do
      let (shareMint, policy, vault) ← checkManagedCall verify s ctx args remaining
      let token ← effect s.core.token
      let reloaded ← okOr (.account .invalidAccountData) (token.mints ctx.shareMint)
      ensure .shareSupplyChanged (reloaded.supply = shareMint.supply)
      pure { s with
        core := { s.core with vault := vault, token := token }
        policies := update s.policies ctx.strategist
          (some { policy with executing := false }) }) := by
  simp only [manageVaultWithMerkleVerification, checkManagedCall, bind_assoc]
  rfl

/-- What the checks of a managed call have found. -/
theorem checkManagedCall_ok {ctx : ManageVault} {args : ManageVaultArgs}
    {remaining : List PolicyAccountMeta} {share : Mint Pubkey} {policy : StrategyPolicy} {v : Vault}
    (h : checkManagedCall verify s ctx args remaining = .ok (share, policy, v)) :
    s.core.token.mints s.core.vault.shareMint = some share ∧
      ctx.shareMint = s.core.vault.shareMint ∧
      s.policies ctx.strategist = some policy ∧ policy.executing = false ∧
      ∃ limit, verify
        { vault := s.core.key
          strategist := ctx.strategist
          policyVersion := .ofNat 64 args.policyVersion
          targetProgram := ctx.targetProgram
          instructionData := args.instructionData
          accounts := policyAccounts s.core.key remaining
          operators := args.operators } args.proof policy.merkleRoot = .ok limit ∧
        limit.elim (v = s.core.vault) fun amount =>
          s.core.vault.consumeManagerRollingLimit amount s.core.clock.slot = .ok v := by
  simp only [checkManagedCall, VaultState.mintAccount_eq_ok, ManagedState.strategyPolicy,
    StrategyPolicy.assertActive, StrategyPolicy.assertNotExecuting, bind_eq_ok, okOr_eq_ok,
    ensure_eq_ok, pure_eq_ok] at h
  obtain ⟨-, -, share, hshare, -, hmint, e, -, venue, -, policy, ⟨_, hfound, -, -, rfl⟩, h⟩ := h
  obtain ⟨-, -, -, -, _, ⟨-, -, -, -, hexecuting⟩, -, -, -, -, -, -, -, -, -, -, -, -, -, -, -, -,
    -, -, -, -, -, -, limit, hlimit, v, hv, he⟩ := h
  obtain ⟨rfl, rfl, rfl⟩ := he
  refine ⟨hmint ▸ hshare, hmint, hfound, hexecuting, limit, hlimit, ?_⟩
  cases limit with
  | none => exact (pure_eq_ok.1 hv).symm
  | some amount => exact hv

/-- **What a managed call that succeeds has done.** -/
theorem manageVault_ok {ctx : ManageVault} {args : ManageVaultArgs}
    {remaining : List PolicyAccountMeta} {effect : Ledger Pubkey → Result (Ledger Pubkey)}
    (h : manageVaultWithMerkleVerification verify s ctx args remaining effect = .ok s') :
    ∃ share policy v token, checkManagedCall verify s ctx args remaining = .ok (share, policy, v) ∧
      effect s.core.token = .ok token ∧
      (∃ y, token.mints ctx.shareMint = some y ∧ y.supply = share.supply) ∧
      s' = { s with core := { s.core with vault := v, token := token } } := by
  rw [manageVault_eq] at h
  simp only [bind_eq_ok, okOr_eq_ok, ensure_eq_ok, pure_eq_ok] at h
  obtain ⟨⟨share, policy, v⟩, hcheck, token, heffect, y, hy, -, hsupply, rfl⟩ := h
  refine ⟨share, policy, v, token, hcheck, heffect, ⟨y, hy, hsupply⟩, ?_⟩
  -- an active policy is not executing, so the flag is what it was
  obtain ⟨-, -, hfound, hexecuting, -⟩ := checkManagedCall_ok hcheck
  rw [← hexecuting, show update s.policies ctx.strategist (some { policy with
    executing := policy.executing }) = s.policies from update_eq_self_iff.2 hfound.symm]

/-- A managed call is no work for the core either, and leaves the policies as they were. -/
theorem manageVault_idle {ctx : ManageVault} {args : ManageVaultArgs}
    {remaining : List PolicyAccountMeta} {effect : Ledger Pubkey → Result (Ledger Pubkey)}
    (h : manageVaultWithMerkleVerification verify s ctx args remaining effect = .ok s') :
    Idle s.core s'.core ∧ s'.policies = s.policies ∧
      s'.pendingPolicyUpdates = s.pendingPolicyUpdates := by
  obtain ⟨share, policy, v, token, hcheck, -, -, rfl⟩ := manageVault_ok h
  obtain ⟨-, -, -, -, limit, -, hv⟩ := checkManagedCall_ok hcheck
  have hcore : Idle s.core (s.core.withVault v) := by
    cases limit with
    | none =>
      obtain rfl := hv
      exact .refl _
    | some amount =>
      obtain ⟨start, used, rfl⟩ := Vault.consumeManagerRollingLimit_ok hv
      exact (Idle.refl s.core).withVault rfl rfl
  exact ⟨hcore.withToken token, rfl, rfl⟩

/-! ### The core of a run -/

/-- **A step of the whole program** is an instruction of the core, or no work for it. -/
theorem execManaged_core {a : ManagedAction} (h : execManaged verify s a = .ok s') :
    (∃ b, a = .core b ∧ exec s.core b = .ok s'.core ∧ s' = { s with core := s'.core }) ∨
      ((∀ b, a ≠ .core b) ∧ Idle s.core s'.core) := by
  cases a with
  | core b =>
    simp only [execManaged, bind_eq_ok, pure_eq_ok] at h
    obtain ⟨c, hc, rfl⟩ := h
    exact .inl ⟨b, rfl, hc, rfl⟩
  | venue i => exact .inr ⟨by simp, (execVenue_idle h).1⟩
  | policy i =>
    have hcore : s'.core = s.core := execPolicy_core h
    exact .inr ⟨by simp, by rw [hcore]; exact .refl _⟩
  | manageVault ctx args remaining effect => exact .inr ⟨by simp, (manageVault_idle h).1⟩

/-- A transaction that is no policy instruction leaves policies and their queue. -/
theorem execManaged_policies {a : ManagedAction} (h : execManaged verify s a = .ok s') :
    (∃ i, a = .policy i ∧ PolicyMoved s i s') ∨
      ((∀ i, a ≠ .policy i) ∧ s'.policies = s.policies ∧
        s'.pendingPolicyUpdates = s.pendingPolicyUpdates) := by
  cases a with
  | core b =>
    simp only [execManaged, bind_eq_ok, pure_eq_ok] at h
    obtain ⟨c, -, rfl⟩ := h
    exact .inr ⟨by simp, rfl, rfl⟩
  | venue i => exact .inr ⟨by simp, (execVenue_idle h).2⟩
  | policy i => exact .inl ⟨i, rfl, execPolicy_moved h⟩
  | manageVault ctx args remaining effect => exact .inr ⟨by simp, (manageVault_idle h).2⟩

/-- **The effect of a transaction on the docket.** -/
theorem execManaged_docket {a : ManagedAction} (h : execManaged verify s a = .ok s') :
    DocketStep s.core.docket s'.core.docket := by
  rcases execManaged_core h with ⟨b, -, hb, -⟩ | ⟨-, hidle⟩
  · cases b with
    | request i remaining =>
      obtain ⟨d, hd, hmove⟩ := execRequest_worked hb
      rw [hd.docket]
      exact .moved hmove
    | instantDeposit ctx amount remaining =>
      obtain ⟨net, hnet, hcap, hd⟩ := instantDeposit_worked hb
      rw [hd.docket]
      exact .deposited hnet hcap
    | instantRedeem ctx shares remaining =>
      obtain ⟨gross, hd⟩ := instantRedeem_worked hb
      rw [hd.docket]
      exact .redeemed
    | updateVaultNav authority u remaining =>
      obtain ⟨-, -, -, -, -, -, hdocket, -⟩ := updateVaultNav_posted hb
      rw [hdocket]
      exact .configured
    | config i => exact (execConfig_configured hb).docket
    | world w =>
      obtain ⟨token, clock, houtside, -⟩ := execWorld_outside hb
      rw [houtside]
      exact .configured
  · rw [hidle.docket]
    exact .configured

/-- The same step, taken among venues and policies. -/
def ManagedState.amid (s : ManagedState) (t : Transition VaultState Action) :
    Transition ManagedState ManagedAction :=
  ⟨{ s with core := t.pre }, .core t.act, { s with core := t.post }⟩

/-- **A run of the core is a run of the whole program.** -/
theorem ManagedRun.of_core {tr : List (Transition VaultState Action)} (s : ManagedState)
    (h : VaultRun c tr c') :
    ManagedRun verify { s with core := c } (tr.map s.amid) { s with core := c' } := by
  induction h with
  | nil => exact .nil
  | @snoc tr c c' a hr he ih =>
    have hstep : execManaged verify { s with core := c } (.core a) = .ok { s with core := c' } := by
      simp only [execManaged, he]
      rfl
    simpa [ManagedState.amid] using ih.snoc hstep

end AsyncVault
