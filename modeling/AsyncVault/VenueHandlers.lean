/-
AsyncVault/VenueHandlers.lean

When the venue instructions succeed, and what they then write.

As for requests, what an accepted instruction checked and wrote is said once,
under the names of the checks.  The registry's four instructions change entries
and approvals only; opening and removing a position also recount the approval,
and a deployment and a pull record a transfer between a reserve and a position
that went through to the unit (`deployVenuePosition_iff`, `pullVenuePosition_iff`).
-/
import AsyncVault.Handlers
import AsyncVault.Venue

namespace AsyncVault

open Checked TokenLedger KeyedStore Function

variable {s s' : ManagedState} {k : VenueEntryKey} {e : VenueEntry} {v : VaultVenue}
variable {p : Position} {m a : Pubkey} {amount : ℕ} {token : Ledger Pubkey}

/-! ### Declared accounts -/

theorem ManagedState.venueEntry_eq_ok :
    s.venueEntry k = .ok e ↔ s.venueEntries k = some e := okOr_eq_ok

theorem ManagedState.vaultVenue_eq_ok :
    s.vaultVenue k = .ok v ↔
      s.vaultVenues k = some v ∧ v.vault = s.core.key ∧ v.venueEntry = k := by
  simp only [ManagedState.vaultVenue, bind_eq_ok, okOr_eq_ok, ensure_eq_ok, pure_eq_ok]
  constructor
  · rintro ⟨v', hv, -, hvault, -, hentry, rfl⟩
    exact ⟨hv, hvault, hentry⟩
  · rintro ⟨hv, hvault, hentry⟩
    exact ⟨v, hv, (), hvault, (), hentry, rfl⟩

theorem vaultVenue_ok (h : s.vaultVenue k = .ok v) : s.vaultVenues k = some v :=
  (ManagedState.vaultVenue_eq_ok.1 h).1

theorem ManagedState.position_eq_ok {x : TokenAccount Pubkey} :
    s.position k m a = .ok (p, x) ↔
      s.positions.lookup (k, m) = some p ∧ p.vault = s.core.key ∧ p.venueEntry = k ∧
        p.assetMint = m ∧
        (s.core.token.accounts a = some x ∧ x.mint = m ∧ x.owner = s.core.key) ∧
        p.tokenAccount = a := by
  simp only [ManagedState.position, bind_eq_ok, okOr_eq_ok, ensure_eq_ok,
    VaultState.tokenAccount_eq_ok, pure_eq_ok, Prod.mk.injEq]
  constructor
  · rintro ⟨p', hp, -, hvault, -, hentry, -, hasset, x', hx, -, haddress, rfl, rfl⟩
    exact ⟨hp, hvault, hentry, hasset, hx, haddress⟩
  · rintro ⟨hp, hvault, hentry, hasset, hx, haddress⟩
    exact ⟨p, hp, (), hvault, (), hentry, (), hasset, x, hx, (), haddress, rfl, rfl⟩

/-! ### Registry and approvals -/

/-- **When a venue is listed.** -/
theorem registerVenue_iff {registryAuthority : Pubkey} {args : RegisterVenueArgs} :
    registerVenue s registryAuthority args = .ok s' ↔
      registryAuthority ≠ s.core.key ∧
        s.venueEntries ⟨registryAuthority, args.venueId⟩ = none ∧
        (0 < args.allowedDiscriminators.length ∧
          args.allowedDiscriminators.length ≤ maxVenueDiscriminators) ∧
        s' = { s with venueEntries := update s.venueEntries ⟨registryAuthority, args.venueId⟩ (some
          { registryAuthority := registryAuthority
            targetProgram := args.targetProgram
            allowedDiscriminators := args.allowedDiscriminators
            routineSafe := args.routineSafe
            paused := false }) } := by
  simp only [registerVenue, bind_eq_ok, VaultState.signer_eq_ok, require_eq_ok,
    Option.isNone_iff_eq_none, ensure_eq_ok, pure_eq_ok]
  constructor
  · rintro ⟨-, hsigner, -, hfresh, -, hcount, rfl⟩
    exact ⟨hsigner, hfresh, hcount, rfl⟩
  · rintro ⟨hsigner, hfresh, hcount, rfl⟩
    exact ⟨(), hsigner, (), hfresh, (), hcount, rfl⟩

/-- **When an entry is paused or resumed.** -/
theorem setVenueEntryPaused_iff {registryAuthority : Pubkey} {paused : Bool} :
    setVenueEntryPaused s registryAuthority k paused = .ok s' ↔
      registryAuthority ≠ s.core.key ∧ ∃ e, s.venueEntries k = some e ∧
        registryAuthority = e.registryAuthority ∧
        s' = { s with
          venueEntries := update s.venueEntries k (some { e with paused := paused }) } := by
  simp only [setVenueEntryPaused, bind_eq_ok, VaultState.signer_eq_ok,
    ManagedState.venueEntry_eq_ok, VenueEntry.assertAuthority, ensure_eq_ok, pure_eq_ok]
  constructor
  · rintro ⟨-, hsigner, e, he, -, hauthority, rfl⟩
    exact ⟨hsigner, e, he, hauthority, rfl⟩
  · rintro ⟨hsigner, e, he, hauthority, rfl⟩
    exact ⟨(), hsigner, e, he, (), hauthority, rfl⟩

/-- What approving a venue checks and does. -/
structure ApprovingVenue (s s' : ManagedState) (authority : Pubkey) (k : VenueEntryKey)
    (recipientAuthority : Pubkey) (e : VenueEntry) : Prop where
  signer : authority ≠ s.core.key
  entry : s.venueEntries k = some e
  fresh : s.vaultVenues k = none
  curator : authority = s.core.vault.curator
  recipient : recipientAuthority ≠ Pubkey.default
  untimed : s.core.vault.timelockDelaySlots = 0
  active : e.paused = false
  state : s' = { s with vaultVenues := update s.vaultVenues k (some
    { vault := s.core.key
      venueEntry := k
      recipientAuthority := recipientAuthority
      targetProgram := e.targetProgram
      routineSafe := e.routineSafe
      paused := false
      positionCount := 0 }) }

/-- **When a venue is approved.** -/
theorem approveVaultVenue_iff {authority recipientAuthority : Pubkey} :
    approveVaultVenue s authority k recipientAuthority = .ok s' ↔
      ∃ e, ApprovingVenue s s' authority k recipientAuthority e := by
  simp only [approveVaultVenue, bind_eq_ok, VaultState.signer_eq_ok,
    ManagedState.venueEntry_eq_ok, require_eq_ok, Option.isNone_iff_eq_none, Vault.assertCurator,
    VenueEntry.assertActive, ensure_eq_ok, pure_eq_ok]
  constructor
  · rintro ⟨-, hsigner, e, he, -, hfresh, -, hcurator, -, hrecipient, -, huntimed, -, hactive, rfl⟩
    exact ⟨e, hsigner, he, hfresh, hcurator, hrecipient, huntimed, hactive, rfl⟩
  · rintro ⟨e, h⟩
    obtain rfl := h.state
    exact ⟨(), h.signer, e, h.entry, (), h.fresh, (), h.curator, (), h.recipient, (), h.untimed,
      (), h.active, rfl⟩

/-- What withdrawing the approval of a venue checks and does. -/
structure RemovingVenue (s s' : ManagedState) (authority : Pubkey) (k : VenueEntryKey)
    (v : VaultVenue) : Prop where
  signer : authority ≠ s.core.key
  entry : (s.venueEntries k).isSome
  venue : s.vaultVenue k = .ok v
  curator : authority = s.core.vault.curator
  untimed : s.core.vault.timelockDelaySlots = 0
  empty : v.positionCount = 0
  state : s' = { s with vaultVenues := update s.vaultVenues k none }

/-- **When the approval of a venue is withdrawn.** -/
theorem removeVaultVenue_iff {authority : Pubkey} :
    removeVaultVenue s authority k = .ok s' ↔ ∃ v, RemovingVenue s s' authority k v := by
  simp only [removeVaultVenue, bind_eq_ok, VaultState.signer_eq_ok,
    ManagedState.venueEntry_eq_ok, Vault.assertCurator, VaultVenue.assertEmpty, ensure_eq_ok,
    pure_eq_ok]
  constructor
  · rintro ⟨-, hsigner, e, he, v, hv, -, hcurator, -, huntimed, -, hempty, rfl⟩
    exact ⟨v, hsigner, by rw [he]; rfl, hv, hcurator, huntimed, hempty, rfl⟩
  · rintro ⟨v, h⟩
    obtain rfl := h.state
    obtain ⟨e, he⟩ := Option.isSome_iff_exists.1 h.entry
    exact ⟨(), h.signer, e, he, v, h.venue, (), h.curator, (), h.untimed, (), h.empty, rfl⟩

/-! ### Positions -/

/-- What opening a position checks and does: its account is opened in `token`. -/
structure VenuePosition.Opens (ctx : VenuePosition) (s s' : ManagedState) (e : VenueEntry)
    (v : VaultVenue) (token : Ledger Pubkey) : Prop where
  signer : ctx.authority ≠ s.core.key
  mint : (s.core.token.mints ctx.assetMint).isSome
  entry : s.venueEntries ctx.venueEntry = some e
  venue : s.vaultVenue ctx.venueEntry = .ok v
  fresh : s.positions.lookup (ctx.venueEntry, ctx.assetMint) = none
  opened : s.core.token.initializeAccount ctx.assetTokenProgram ctx.positionTokenAccount
    ctx.assetMint s.core.key = .ok token
  curator : ctx.authority = s.core.vault.curator
  untimed : s.core.vault.timelockDelaySlots = 0
  supported : checkSupportedAsset s.core ctx.assetMint ctx.vaultAsset = .ok ()
  entryActive : e.paused = false
  venueActive : v.paused = false
  room : v.positionCount + 1 < u16
  state : s' = { s with
    core := { s.core with token := token }
    positions := s.positions.insert (ctx.venueEntry, ctx.assetMint)
      { vault := s.core.key
        venueEntry := ctx.venueEntry
        assetMint := ctx.assetMint
        tokenAccount := ctx.positionTokenAccount
        amount := 0 }
    vaultVenues := update s.vaultVenues ctx.venueEntry
      (some { v with positionCount := v.positionCount + 1 }) }

/-- **When a position is opened.** -/
theorem createVenuePosition_iff {ctx : VenuePosition} :
    createVenuePosition s ctx = .ok s' ↔ ∃ e v token, ctx.Opens s s' e v token := by
  simp only [createVenuePosition, bind_eq_ok, VaultState.signer_eq_ok,
    VaultState.mintAccount_eq_ok, ManagedState.venueEntry_eq_ok, require_eq_ok,
    Option.isNone_iff_eq_none, cpi_eq_ok, Vault.assertCurator, VenueEntry.assertActive,
    VaultVenue.assertActive, ensure_eq_ok, add_eq_ok, pure_eq_ok]
  constructor
  · rintro ⟨-, hsigner, y, hy, e, he, v, hv, -, hfresh, token, htoken, -, hcurator, -, huntimed, _,
      hsupported, -, hentry, -, hvenue, _, ⟨hroom, rfl⟩, rfl⟩
    exact ⟨e, v, token, hsigner, by rw [hy]; rfl, he, hv, hfresh, htoken, hcurator, huntimed,
      hsupported, hentry, hvenue, hroom, rfl⟩
  · rintro ⟨e, v, token, h⟩
    obtain rfl := h.state
    obtain ⟨y, hy⟩ := Option.isSome_iff_exists.1 h.mint
    exact ⟨(), h.signer, y, hy, e, h.entry, v, h.venue, (), h.fresh, token, h.opened, (),
      h.curator, (), h.untimed, (), h.supported, (), h.entryActive, (), h.venueActive, _,
      ⟨h.room, rfl⟩, rfl⟩

/-- What deployments and pulls check of the accounts first. -/
structure VenuePosition.Movable (ctx : VenuePosition) (s : ManagedState) (p : Position)
    (asset : Mint Pubkey) (e : VenueEntry) (v : VaultVenue) : Prop where
  signer : ctx.authority ≠ s.core.key
  mint : s.core.token.mints ctx.assetMint = some asset
  entry : s.venueEntries ctx.venueEntry = some e
  venue : s.vaultVenue ctx.venueEntry = .ok v
  reserve : s.core.token.Holds ctx.vaultTokenAccount ctx.assetMint s.core.key
  found : s.positions.lookup (ctx.venueEntry, ctx.assetMint) = some p
  vault : p.vault = s.core.key
  venueEntry : p.venueEntry = ctx.venueEntry
  assetMint : p.assetMint = ctx.assetMint
  account : s.core.token.Holds ctx.positionTokenAccount ctx.assetMint s.core.key
  tokenAccount : p.tokenAccount = ctx.positionTokenAccount
  program : asset.program = ctx.assetTokenProgram
  running : s.core.vault.initialized = true ∧ s.core.vault.paused = false
  manager : ctx.authority = s.core.vault.manager ∨
    (ctx.authority = s.core.vault.hotManager ∧ v.routineSafe = true)
  entryActive : e.paused = false
  venueActive : v.paused = false

theorem positionChecks_iff {ctx : VenuePosition} {before reserve : ℕ} :
    positionChecks s ctx = .ok (p, before, reserve) ↔
      (∃ asset e v, ctx.Movable s p asset e v) ∧
        before = s.core.token.balance ctx.positionTokenAccount ∧
        reserve = s.core.token.balance ctx.vaultTokenAccount := by
  simp only [positionChecks, bind_eq_ok, VaultState.signer_eq_ok, VaultState.mintAccount_eq_ok,
    ManagedState.venueEntry_eq_ok, VaultState.tokenAccount_eq_ok, VaultState.tokenProgram,
    Vault.assertUnpausedAndInitialized_eq_ok, VaultVenue.assertManagerAuthorized,
    VenueEntry.assertActive, VaultVenue.assertActive, require_eq_ok, ensure_eq_ok, pure_eq_ok,
    Prod.mk.injEq]
  constructor
  · rintro ⟨-, hsigner, y, hy, e, he, v, hv, x, hx, ⟨p', account⟩, hposition, -, hprogram, -,
      hrunning, -, hmanager, -, hentry, -, hvenue, rfl, rfl, rfl⟩
    obtain ⟨hfound, hvault, hp, hasset, hheld, haddress⟩ := ManagedState.position_eq_ok.1 hposition
    exact ⟨⟨y, e, v, hsigner, hy, he, hv, ⟨x, hx⟩, hfound, hvault, hp, hasset, ⟨account, hheld⟩,
      haddress, hprogram, hrunning, hmanager, hentry, hvenue⟩, (balance_of_some hheld.1).symm,
      (balance_of_some hx.1).symm⟩
  · rintro ⟨⟨y, e, v, h⟩, rfl, rfl⟩
    obtain ⟨x, hx⟩ := h.reserve
    obtain ⟨account, hheld⟩ := h.account
    -- the position is loaded as one check in the handler
    have hposition := ManagedState.position_eq_ok.2
      ⟨h.found, h.vault, h.venueEntry, h.assetMint, hheld, h.tokenAccount⟩
    exact ⟨(), h.signer, y, h.mint, e, h.entry, v, h.venue, x, hx, (p, account), hposition, (),
      h.program, (), h.running, (), h.manager, (), h.entryActive, (), h.venueActive, rfl,
      (balance_of_some hheld.1).symm, (balance_of_some hx.1).symm⟩

/-- How a movement of the primary asset is charged: to the manager's window of the vault. -/
structure VenuePosition.ChargesPrimary (ctx : VenuePosition) (s : ManagedState) (core : VaultState)
    (amount start used : ℕ) : Prop where
  primary : s.core.vault.assetMint = ctx.assetMint
  reserve : s.core.vault.vaultTokenAccount = ctx.vaultTokenAccount
  window : Vault.consumeRollingLimit amount s.core.clock.slot s.core.vault.managerRollingLimit
    s.core.vault.rollingLimitWindowSlots s.core.vault.managerWindowStartSlot
    s.core.vault.managerWindowAmount = .ok (start, used)
  state : core = { s.core with vault := { s.core.vault with
    managerWindowStartSlot := start
    managerWindowAmount := used } }

/-- How a movement of the secondary asset at `m` is charged: to the window of the asset, whose
balances become those of `l`. -/
structure VenuePosition.ChargesSecondary (ctx : VenuePosition) (s : ManagedState)
    (core : VaultState) (p : Position) (amount : ℕ) (available : VaultAsset → ℕ)
    (move : PositionLedger → Result PositionLedger) (m : Pubkey) (va : VaultAsset)
    (start used : ℕ) (l : PositionLedger) : Prop where
  secondary : s.core.vault.assetMint ≠ ctx.assetMint
  vaultAsset : ctx.vaultAsset = some m
  asset : s.core.secondaryAsset (some m) ctx.assetMint = .ok va
  reserve : va.reserve = ctx.vaultTokenAccount
  covered : amount ≤ available va
  window : Vault.consumeRollingLimit amount s.core.clock.slot s.core.vault.managerRollingLimit
    s.core.vault.rollingLimitWindowSlots va.managerWindowStartSlot va.managerWindowAmount =
      .ok (start, used)
  moved : move ⟨p.amount, va.idleBalance, va.deployedBalance⟩ = .ok l
  state : core = { s.core with vaultAssets := update s.core.vaultAssets m (some
    { va with
      managerWindowStartSlot := start
      managerWindowAmount := used
      idleBalance := l.idleBalance
      deployedBalance := l.deployedBalance }) }

theorem accountMovement_iff {ctx : VenuePosition} {unavailable : AsyncVaultError}
    {available : VaultAsset → ℕ} {move : PositionLedger → Result PositionLedger}
    {core : VaultState} {ledger : Option PositionLedger} :
    accountMovement s ctx p amount unavailable available move = .ok (core, ledger) ↔
      (∃ start used, ctx.ChargesPrimary s core amount start used ∧ ledger = none) ∨
      ∃ m va start used l,
        ctx.ChargesSecondary s core p amount available move m va start used l ∧
          ledger = some l := by
  unfold accountMovement
  -- the handler branches: the primary asset has its window in the vault, others in their account
  by_cases hm : s.core.vault.assetMint = ctx.assetMint
  · have hprimary : s.core.vault.isPrimaryAsset ctx.assetMint = true := decide_eq_true hm
    rw [if_pos hprimary]
    simp only [Vault.consumeManagerRollingLimit, bind_eq_ok, ensure_eq_ok, pure_eq_ok,
      Prod.mk.injEq]
    constructor
    · rintro ⟨-, hreserve, v, ⟨⟨start, used⟩, hwindow, rfl⟩, rfl, rfl⟩
      exact .inl ⟨start, used, ⟨hm, hreserve, hwindow, rfl⟩, rfl⟩
    · rintro (⟨start, used, h, rfl⟩ | ⟨m, va, start, used, l, h, -⟩)
      · exact ⟨(), h.reserve, _, ⟨(start, used), h.window, rfl⟩, h.state.symm, rfl⟩
      · exact absurd hm h.secondary
  · have hsecondary : ¬s.core.vault.isPrimaryAsset ctx.assetMint = true := by
      rwa [Vault.isPrimaryAsset, decide_eq_true_eq]
    rw [if_neg hsecondary]
    simp only [VaultAsset.assertReserve, VaultAsset.consumeManagerRollingLimit, bind_eq_ok,
      okOr_eq_ok, ensure_eq_ok, pure_eq_ok, Prod.mk.injEq]
    constructor
    · rintro ⟨m, hvaultAsset, va, hva, -, hreserve, -, hcovered, va', ⟨⟨start, used⟩, hwindow, rfl⟩,
        l, hmoved, rfl, rfl⟩
      exact .inr ⟨m, va, start, used, l,
        ⟨hm, hvaultAsset, hva, hreserve, hcovered, hwindow, hmoved, rfl⟩, rfl⟩
    · rintro (⟨start, used, h, -⟩ | ⟨m, va, start, used, l, h, rfl⟩)
      · exact absurd h.primary hm
      · exact ⟨m, h.vaultAsset, va, h.asset, (), h.reserve, (), h.covered, _,
          ⟨(start, used), h.window, rfl⟩, l, h.moved, h.state.symm, rfl⟩

/-- What a deployment checks and does: `core` and `ledger` are what its charge leaves, the assets
move in `token`, and the position then records `recorded`. -/
structure VenuePosition.Deploys (ctx : VenuePosition) (s s' : ManagedState) (amount : ℕ)
    (p : Position) (core : VaultState) (ledger : Option PositionLedger) (token : Ledger Pubkey)
    (recorded : ℕ) : Prop where
  movable : ∃ asset e v, ctx.Movable s p asset e v
  charged : accountMovement s ctx p amount .insufficientLiquidity VaultAsset.idleBalance
    (PositionLedger.deploy · amount) = .ok (core, ledger)
  moved : core.token.transferChecked ctx.assetTokenProgram ctx.vaultTokenAccount ctx.assetMint
    ctx.positionTokenAccount core.key amount = .ok token
  covered : amount ≤ s.core.token.balance ctx.vaultTokenAccount
  room : s.core.token.balance ctx.positionTokenAccount + amount < u64
  debited : token.balance ctx.vaultTokenAccount =
    s.core.token.balance ctx.vaultTokenAccount - amount
  credited : token.balance ctx.positionTokenAccount =
    s.core.token.balance ctx.positionTokenAccount + amount
  ofLedger : ∀ l, ledger = some l → recorded = l.positionAmount
  ofPosition : ledger = none → p.amount + amount < u64 ∧ recorded = p.amount + amount
  state : s' = { s with
    core := { core with token := token }
    positions := s.positions.insert (ctx.venueEntry, ctx.assetMint)
      { p with amount := recorded } }

/-- **When assets are deployed.** -/
theorem deployVenuePosition_iff {ctx : VenuePosition} :
    deployVenuePosition s ctx amount = .ok s' ↔ ∃ p core ledger token recorded,
      ctx.Deploys s s' amount p core ledger token recorded := by
  simp only [deployVenuePosition, checkBalanceDelta, bind_eq_ok, cpi_eq_ok, sub_eq_ok, add_eq_ok,
    ensure_eq_ok, pure_eq_ok]
  constructor
  · rintro ⟨⟨p, before, reserve⟩, hchecks, ⟨core, ledger⟩, hcharge, token, hmove, _, ⟨hle, rfl⟩, _,
      ⟨hlt, rfl⟩, -, ⟨hdebited, hcredited⟩, recorded, hrecorded, rfl⟩
    obtain ⟨hmovable, rfl, rfl⟩ := positionChecks_iff.1 hchecks
    refine ⟨p, core, ledger, token, recorded, hmovable, hcharge, hmove, hle, hlt, hdebited,
      hcredited, ?_, ?_, rfl⟩
    · rintro l rfl
      exact (pure_eq_ok.1 hrecorded).symm
    · rintro rfl
      exact add_eq_ok.1 hrecorded
  · rintro ⟨p, core, ledger, token, recorded, h⟩
    obtain rfl := h.state
    refine ⟨(p, _, _), positionChecks_iff.2 ⟨h.movable, rfl, rfl⟩, (core, ledger), h.charged, token,
      h.moved, _, ⟨h.covered, rfl⟩, _, ⟨h.room, rfl⟩, (), ⟨h.debited, h.credited⟩, recorded, ?_,
      rfl⟩
    cases ledger with
    | none => exact add_eq_ok.2 (h.ofPosition rfl)
    | some l => exact pure_eq_ok.2 (h.ofLedger l rfl).symm

/-- What a pull checks and does, likewise. -/
structure VenuePosition.Pulls (ctx : VenuePosition) (s s' : ManagedState) (amount : ℕ)
    (p : Position) (core : VaultState) (ledger : Option PositionLedger) (token : Ledger Pubkey)
    (recorded : ℕ) : Prop where
  movable : ∃ asset e v, ctx.Movable s p asset e v
  enough : amount ≤ p.amount
  charged : accountMovement s ctx p amount .insufficientPositionBalance VaultAsset.deployedBalance
    (PositionLedger.pull · amount) = .ok (core, ledger)
  moved : core.token.transferChecked ctx.assetTokenProgram ctx.positionTokenAccount ctx.assetMint
    ctx.vaultTokenAccount core.key amount = .ok token
  room : s.core.token.balance ctx.vaultTokenAccount + amount < u64
  covered : amount ≤ s.core.token.balance ctx.positionTokenAccount
  credited : token.balance ctx.vaultTokenAccount =
    s.core.token.balance ctx.vaultTokenAccount + amount
  debited : token.balance ctx.positionTokenAccount =
    s.core.token.balance ctx.positionTokenAccount - amount
  ofLedger : ∀ l, ledger = some l → recorded = l.positionAmount
  ofPosition : ledger = none → recorded + amount = p.amount
  state : s' = { s with
    core := { core with token := token }
    positions := s.positions.insert (ctx.venueEntry, ctx.assetMint)
      { p with amount := recorded } }

/-- **When assets are pulled back.** -/
theorem pullVenuePosition_iff {ctx : VenuePosition} :
    pullVenuePosition s ctx amount = .ok s' ↔ ∃ p core ledger token recorded,
      ctx.Pulls s s' amount p core ledger token recorded := by
  simp only [pullVenuePosition, checkBalanceDelta, bind_eq_ok, cpi_eq_ok, sub_eq_ok, add_eq_ok,
    ensure_eq_ok, pure_eq_ok]
  constructor
  · rintro ⟨⟨p, before, reserve⟩, hchecks, -, henough, ⟨core, ledger⟩, hcharge, token, hmove, _,
      ⟨hlt, rfl⟩, _, ⟨hle, rfl⟩, -, ⟨hcredited, hdebited⟩, recorded, hrecorded, rfl⟩
    obtain ⟨hmovable, rfl, rfl⟩ := positionChecks_iff.1 hchecks
    refine ⟨p, core, ledger, token, recorded, hmovable, henough, hcharge, hmove, hlt, hle,
      hcredited, hdebited, ?_, ?_, rfl⟩
    · rintro l rfl
      exact (pure_eq_ok.1 hrecorded).symm
    · rintro rfl
      obtain ⟨hle, rfl⟩ := sub_eq_ok.1 hrecorded
      exact Nat.sub_add_cancel hle
  · rintro ⟨p, core, ledger, token, recorded, h⟩
    obtain rfl := h.state
    refine ⟨(p, _, _), positionChecks_iff.2 ⟨h.movable, rfl, rfl⟩, (), h.enough, (core, ledger),
      h.charged, token, h.moved, _, ⟨h.room, rfl⟩, _, ⟨h.covered, rfl⟩, (),
      ⟨h.credited, h.debited⟩, recorded, ?_, rfl⟩
    -- what is recorded depends on who keeps the ledger
    cases ledger with
    | none => exact sub_eq_ok.2 ⟨h.enough, Nat.eq_sub_of_add_eq (h.ofPosition rfl)⟩
    | some l => exact pure_eq_ok.2 (h.ofLedger l rfl).symm

/-- What removing a position checks and does: its account is closed in `token`. -/
structure VenuePosition.Closes (ctx : VenuePosition) (s s' : ManagedState) (p : Position)
    (asset : Mint Pubkey) (v : VaultVenue) (token : Ledger Pubkey) : Prop where
  signer : ctx.authority ≠ s.core.key
  mint : s.core.token.mints ctx.assetMint = some asset
  entry : (s.venueEntries ctx.venueEntry).isSome
  venue : s.vaultVenue ctx.venueEntry = .ok v
  found : s.positions.lookup (ctx.venueEntry, ctx.assetMint) = some p
  vault : p.vault = s.core.key
  venueEntry : p.venueEntry = ctx.venueEntry
  assetMint : p.assetMint = ctx.assetMint
  account : s.core.token.Holds ctx.positionTokenAccount ctx.assetMint s.core.key
  tokenAccount : p.tokenAccount = ctx.positionTokenAccount
  program : asset.program = ctx.assetTokenProgram
  curator : ctx.authority = s.core.vault.curator
  untimed : s.core.vault.timelockDelaySlots = 0
  supported : checkSupportedAsset s.core ctx.assetMint ctx.vaultAsset = .ok ()
  empty : p.amount = 0
  balance : s.core.token.balance ctx.positionTokenAccount = 0
  counted : 1 ≤ v.positionCount
  closed : s.core.token.closeAccount ctx.positionTokenAccount s.core.key = .ok token
  state : s' = { s with
    core := { s.core with token := token }
    positions := s.positions.erase (ctx.venueEntry, ctx.assetMint)
    vaultVenues := update s.vaultVenues ctx.venueEntry
      (some { v with positionCount := v.positionCount - 1 }) }

/-- **When a position is removed.** -/
theorem removeVenuePosition_iff {ctx : VenuePosition} :
    removeVenuePosition s ctx = .ok s' ↔ ∃ p asset v token, ctx.Closes s s' p asset v token := by
  simp only [removeVenuePosition, bind_eq_ok, VaultState.signer_eq_ok,
    VaultState.mintAccount_eq_ok, ManagedState.venueEntry_eq_ok, VaultState.tokenProgram,
    require_eq_ok, Vault.assertCurator, Position.assertEmpty, ensure_eq_ok, sub_eq_ok, cpi_eq_ok,
    pure_eq_ok]
  constructor
  · rintro ⟨-, hsigner, y, hy, e, he, v, hv, ⟨p, x⟩, hposition, -, hprogram, -, hcurator, -,
      huntimed, _, hsupported, -, hempty, -, hzero, _, ⟨hcounted, rfl⟩, token, hclosed, rfl⟩
    obtain ⟨hfound, hvault, hp, hasset, hheld, haddress⟩ := ManagedState.position_eq_ok.1 hposition
    exact ⟨p, y, v, token, hsigner, hy, by rw [he]; rfl, hv, hfound, hvault, hp, hasset,
      ⟨x, hheld⟩, haddress, hprogram, hcurator, huntimed, hsupported, hempty,
      (balance_of_some hheld.1).trans hzero, hcounted, hclosed, rfl⟩
  · rintro ⟨p, y, v, token, h⟩
    obtain rfl := h.state
    obtain ⟨e, he⟩ := Option.isSome_iff_exists.1 h.entry
    obtain ⟨x, hheld⟩ := h.account
    have hposition := ManagedState.position_eq_ok.2
      ⟨h.found, h.vault, h.venueEntry, h.assetMint, hheld, h.tokenAccount⟩
    have hzero : x.amount = 0 := (balance_of_some hheld.1).symm.trans h.balance
    exact ⟨(), h.signer, y, h.mint, e, he, v, h.venue, (p, x), hposition, (), h.program, (),
      h.curator, (), h.untimed, (), h.supported, (), h.empty, (), hzero, _, ⟨h.counted, rfl⟩,
      token, h.closed, rfl⟩

/-! ### External withdrawals -/

/-- What an external withdrawal checks and does: `w` is the vault with the withdrawal charged, and
the assets move in `token`. -/
structure WithdrawAssets.Pays (ctx : WithdrawAssets) (s s' : ManagedState) (amount : ℕ)
    (asset : Mint Pubkey) (e : VenueEntry) (v : VaultVenue) (w : Vault) (token : Ledger Pubkey) :
    Prop where
  signer : ctx.authority ≠ s.core.key
  mint : s.core.token.mints ctx.assetMint = some asset
  primary : s.core.vault.assetMint = ctx.assetMint
  curator : ctx.authority = s.core.vault.curator
  entry : s.venueEntries ctx.venueEntry = some e
  venue : s.vaultVenue ctx.venueEntry = .ok v
  held : s.core.token.Holds ctx.vaultTokenAccount ctx.assetMint s.core.key
  program : asset.program = ctx.assetTokenProgram
  reserve : s.core.vault.vaultTokenAccount = ctx.vaultTokenAccount
  recipient : s.core.token.Holds ctx.recipientTokenAccount ctx.assetMint v.recipientAuthority
  running : s.core.vault.initialized = true ∧ s.core.vault.paused = false
  enabled : s.core.extensions.externallyManagedWithdrawals = some true
  entryActive : e.paused = false
  venueActive : v.paused = false
  charged : s.core.vault.consumeExternalWithdrawRollingLimit amount s.core.clock.slot = .ok w
  paid : s.core.token.transferChecked ctx.assetTokenProgram ctx.vaultTokenAccount ctx.assetMint
    ctx.recipientTokenAccount s.core.key amount = .ok token
  state : s' = { s with core := { s.core with vault := w, token := token } }

/-- **When assets are withdrawn.** -/
theorem withdrawAssets_iff {ctx : WithdrawAssets} :
    withdrawAssets s ctx amount = .ok s' ↔ ∃ asset e v w token,
      ctx.Pays s s' amount asset e v w token := by
  simp only [withdrawAssets, bind_eq_ok, VaultState.signer_eq_ok, VaultState.mintAccount_eq_ok,
    ManagedState.venueEntry_eq_ok, VaultState.tokenAccount_eq_ok, VaultState.tokenProgram,
    require_eq_ok, okOr_eq_ok, Vault.assertUnpausedAndInitialized_eq_ok,
    VaultExtensions.assertExternallyManagedWithdrawalsEnabled, VenueEntry.assertActive,
    VaultVenue.assertActive, ensure_eq_ok, cpi_eq_ok, pure_eq_ok]
  constructor
  · rintro ⟨-, hsigner, y, hy, -, hprimary, -, hcurator, e, he, v, hv, x, hx, -, hprogram, -,
      hreserve, r, hr, -, hmint, -, howner, -, hrunning, -, henabled, -, hentry, -, hvenue, w, hw,
      token, hpaid, rfl⟩
    exact ⟨y, e, v, w, token, hsigner, hy, hprimary, hcurator, he, hv, ⟨x, hx⟩, hprogram, hreserve,
      ⟨r, hr, hmint, howner⟩, hrunning, henabled, hentry, hvenue, hw, hpaid, rfl⟩
  · rintro ⟨y, e, v, w, token, h⟩
    obtain rfl := h.state
    obtain ⟨x, hx⟩ := h.held
    obtain ⟨r, hr, hmint, howner⟩ := h.recipient
    exact ⟨(), h.signer, y, h.mint, (), h.primary, (), h.curator, e, h.entry, v, h.venue, x, hx,
      (), h.program, (), h.reserve, r, hr, (), hmint, (), howner, (), h.running, (), h.enabled, (),
      h.entryActive, (), h.venueActive, w, h.charged, token, h.paid, rfl⟩

end AsyncVault
