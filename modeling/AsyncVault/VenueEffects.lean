/-
AsyncVault/VenueEffects.lean

What venue instructions do to tokens and positions.

A position is a token account of the vault with a ledger of its own.  Opening one
opens an empty account, closing one closes an empty account, and in between its
recorded amount grows by exactly what a deployment takes out of the reserve of
its asset and shrinks by exactly what a pull puts back (`VenueEffect`).  An
external withdrawal takes assets out of the primary reserve and records nothing.
-/
import AsyncVault.Tallies

namespace AsyncVault

open Checked TokenLedger KeyedStore Function

variable {s s' : ManagedState} {core : VaultState} {m : Pubkey}

/-! ### Reserves -/

/-- The account that holds the settled assets of an asset. -/
def Terms.reserveOf (t : Terms) (assetMint : Pubkey) : Option Pubkey :=
  if t.assetMint = assetMint then some t.vaultTokenAccount
  else (t.assets assetMint).map AssetTerms.reserve

theorem Terms.reserveOf_primary (t : Terms) : t.reserveOf t.assetMint = some t.vaultTokenAccount :=
  if_pos rfl

/-- A movement is between a position and the reserve of its asset, and what a ledger says
becomes of a position is what `move` makes of its amount. -/
theorem accountMovement_ok (hc : s.core.terms.Coherent) {ctx : VenuePosition} {p : Position}
    {amount : ℕ} {unavailable : AsyncVaultError} {available : VaultAsset → ℕ}
    {move : PositionLedger → Result PositionLedger} {ledger : Option PositionLedger}
    (h : accountMovement s ctx p amount unavailable available move = .ok (core, ledger)) :
    s.core.terms.reserveOf ctx.assetMint = some ctx.vaultTokenAccount ∧
      ∀ l, ledger = some l → ∃ idle deployed, move ⟨p.amount, idle, deployed⟩ = .ok l := by
  obtain ⟨start, used, hm, rfl⟩ | ⟨m, va, start, used, l, hm, rfl⟩ := accountMovement_iff.1 h
  · exact ⟨by simp [Terms.reserveOf, VaultState.terms, hm.primary, hm.reserve], by rintro _ ⟨⟩⟩
  · obtain ⟨-, hfound⟩ := secondaryAsset_ok hc hm.asset
    refine ⟨by simp [Terms.reserveOf, VaultState.terms, hm.secondary, hfound, VaultAsset.terms,
      hm.reserve], ?_⟩
    rintro l' hl'
    obtain rfl := Option.some.inj hl'
    exact ⟨_, _, hm.moved⟩

theorem PositionLedger.deploy_ok {l l' : PositionLedger} {amount : ℕ}
    (h : l.deploy amount = .ok l') : l'.positionAmount = l.positionAmount + amount := by
  simp only [PositionLedger.deploy, bind_eq_ok, add_eq_ok, pure_eq_ok] at h
  obtain ⟨-, -, _, ⟨-, rfl⟩, -, -, -, -, rfl⟩ := h
  rfl

theorem PositionLedger.pull_ok {l l' : PositionLedger} {amount : ℕ}
    (h : l.pull amount = .ok l') : l'.positionAmount + amount = l.positionAmount := by
  simp only [PositionLedger.pull, bind_eq_ok, sub_eq_ok, pure_eq_ok] at h
  obtain ⟨-, -, _, ⟨hle, rfl⟩, -, -, -, -, rfl⟩ := h
  exact Nat.sub_add_cancel hle

/-! ### Effects -/

/-- **The effect of a venue instruction** on tokens and positions. -/
inductive VenueEffect (s s' : ManagedState) : VenueInstruction → Prop
  | still {i : VenueInstruction} (recorded : ∀ ctx amount, i ≠ .withdrawAssets ctx amount)
      (token : s'.core.token = s.core.token) (positions : s'.positions = s.positions) :
      VenueEffect s s' i
  | opened {ctx : VenuePosition} {p : Position} {program : TokenProgram}
      (fresh : s.positions.lookup (ctx.venueEntry, ctx.assetMint) = none)
      (token : s.core.token.initializeAccount program p.tokenAccount ctx.assetMint s.core.key =
        .ok s'.core.token)
      (asset : p.assetMint = ctx.assetMint) (empty : p.amount = 0)
      (positions : s'.positions = s.positions.insert (ctx.venueEntry, ctx.assetMint) p) :
      VenueEffect s s' (.createVenuePosition ctx)
  | deployed {ctx : VenuePosition} {amount : ℕ} {p : Position} {reserve : Pubkey}
      {program : TokenProgram}
      (found : s.positions.lookup (ctx.venueEntry, ctx.assetMint) = some p)
      (asset : p.assetMint = ctx.assetMint)
      (source : s.core.terms.reserveOf ctx.assetMint = some reserve)
      (token : Transferred s.core.token s'.core.token program reserve ctx.assetMint
        p.tokenAccount s.core.key amount)
      (balance : s'.core.token.balance reserve + amount = s.core.token.balance reserve)
      (positions : s'.positions = s.positions.insert (ctx.venueEntry, ctx.assetMint)
        { p with amount := p.amount + amount }) :
      VenueEffect s s' (.deployVenuePosition ctx amount)
  | pulled {ctx : VenuePosition} {amount rest : ℕ} {p : Position} {reserve : Pubkey}
      {program : TokenProgram}
      (found : s.positions.lookup (ctx.venueEntry, ctx.assetMint) = some p)
      (asset : p.assetMint = ctx.assetMint)
      (target : s.core.terms.reserveOf ctx.assetMint = some reserve)
      (token : Transferred s.core.token s'.core.token program p.tokenAccount ctx.assetMint
        reserve s.core.key amount)
      (balance : s'.core.token.balance reserve = s.core.token.balance reserve + amount)
      (left : rest + amount = p.amount)
      (positions : s'.positions = s.positions.insert (ctx.venueEntry, ctx.assetMint)
        { p with amount := rest }) :
      VenueEffect s s' (.pullVenuePosition ctx amount)
  | closed {ctx : VenuePosition} {p : Position}
      (found : s.positions.lookup (ctx.venueEntry, ctx.assetMint) = some p) (empty : p.amount = 0)
      (token : s.core.token.closeAccount p.tokenAccount s.core.key = .ok s'.core.token)
      (positions : s'.positions = s.positions.erase (ctx.venueEntry, ctx.assetMint)) :
      VenueEffect s s' (.removeVenuePosition ctx)
  | withdrew {ctx : WithdrawAssets} {amount : ℕ} {v : VaultVenue} {recipient : Pubkey}
      {program : TokenProgram} (venue : s.vaultVenues ctx.venueEntry = some v)
      (held : s.core.token.Holds recipient s.core.vault.assetMint v.recipientAuthority)
      (token : Transferred s.core.token s'.core.token program s.core.vault.vaultTokenAccount
        s.core.vault.assetMint recipient s.core.key amount)
      (positions : s'.positions = s.positions) :
      VenueEffect s s' (.withdrawAssets ctx amount)

theorem createVenuePosition_effect {ctx : VenuePosition}
    (h : createVenuePosition s ctx = .ok s') : VenueEffect s s' (.createVenuePosition ctx) := by
  obtain ⟨e, v, token, h⟩ := createVenuePosition_iff.1 h
  obtain rfl := h.state
  exact .opened (p :=
    { vault := s.core.key
      venueEntry := ctx.venueEntry
      assetMint := ctx.assetMint
      tokenAccount := ctx.positionTokenAccount
      amount := 0 }) h.fresh h.opened rfl rfl rfl

theorem deployVenuePosition_ok (hc : s.core.terms.Coherent) {ctx : VenuePosition} {amount : ℕ}
    (h : deployVenuePosition s ctx amount = .ok s') :
    ∃ p reserve program, s.positions.lookup (ctx.venueEntry, ctx.assetMint) = some p ∧
      p.assetMint = ctx.assetMint ∧ s.core.terms.reserveOf ctx.assetMint = some reserve ∧
      Transferred s.core.token s'.core.token program reserve ctx.assetMint p.tokenAccount
        s.core.key amount ∧
      s'.core.token.balance reserve + amount = s.core.token.balance reserve ∧
      s'.positions = s.positions.insert (ctx.venueEntry, ctx.assetMint)
        { p with amount := p.amount + amount } := by
  obtain ⟨p, core, ledger, token, n, h⟩ := deployVenuePosition_iff.1 h
  obtain ⟨asset, e, v, hmovable⟩ := h.movable
  obtain ⟨hkept, htoken₀⟩ := accountMovement_kept hc h.charged
  obtain ⟨hsource, hledger⟩ := accountMovement_ok hc h.charged
  have hkey : core.key = s.core.key := congrArg Terms.key hkept.terms
  have hmoved := h.moved
  rw [htoken₀, hkey, ← hmovable.tokenAccount] at hmoved
  -- the primary position is measured by its account, a listed one by the ledger of its asset
  obtain rfl : n = p.amount + amount := by
    cases ledger with
    | none => exact (h.ofPosition rfl).2
    | some l =>
      obtain ⟨idle, deployed, hl⟩ := hledger l rfl
      rw [h.ofLedger l rfl, PositionLedger.deploy_ok hl]
  have hdebited := h.debited
  obtain rfl := h.state
  refine ⟨p, _, _, hmovable.found, hmovable.assetMint, hsource, transferChecked_ok hmoved, ?_, rfl⟩
  show token.balance ctx.vaultTokenAccount + amount = s.core.token.balance ctx.vaultTokenAccount
  rw [hdebited, Nat.sub_add_cancel h.covered]

theorem pullVenuePosition_ok (hc : s.core.terms.Coherent) {ctx : VenuePosition} {amount : ℕ}
    (h : pullVenuePosition s ctx amount = .ok s') :
    ∃ p rest reserve program, s.positions.lookup (ctx.venueEntry, ctx.assetMint) = some p ∧
      p.assetMint = ctx.assetMint ∧ s.core.terms.reserveOf ctx.assetMint = some reserve ∧
      Transferred s.core.token s'.core.token program p.tokenAccount ctx.assetMint reserve
        s.core.key amount ∧
      s'.core.token.balance reserve = s.core.token.balance reserve + amount ∧
      rest + amount = p.amount ∧
      s'.positions = s.positions.insert (ctx.venueEntry, ctx.assetMint)
        { p with amount := rest } := by
  obtain ⟨p, core, ledger, token, n, h⟩ := pullVenuePosition_iff.1 h
  obtain ⟨asset, e, v, hmovable⟩ := h.movable
  obtain ⟨hkept, htoken₀⟩ := accountMovement_kept hc h.charged
  obtain ⟨htarget, hledger⟩ := accountMovement_ok hc h.charged
  have hkey : core.key = s.core.key := congrArg Terms.key hkept.terms
  have hmoved := h.moved
  rw [htoken₀, hkey, ← hmovable.tokenAccount] at hmoved
  -- as in a deployment: by the account, or by the ledger of the asset
  have hleft : n + amount = p.amount := by
    cases ledger with
    | none => exact h.ofPosition rfl
    | some l =>
      obtain ⟨idle, deployed, hl⟩ := hledger l rfl
      rw [h.ofLedger l rfl, PositionLedger.pull_ok hl]
  have hcredited := h.credited
  obtain rfl := h.state
  exact ⟨p, n, _, _, hmovable.found, hmovable.assetMint, htarget, transferChecked_ok hmoved,
    hcredited, hleft, rfl⟩

theorem removeVenuePosition_effect {ctx : VenuePosition}
    (h : removeVenuePosition s ctx = .ok s') : VenueEffect s s' (.removeVenuePosition ctx) := by
  obtain ⟨p, asset, v, token, h⟩ := removeVenuePosition_iff.1 h
  have hclosed := h.closed
  rw [← h.tokenAccount] at hclosed
  obtain rfl := h.state
  exact .closed h.found h.empty hclosed rfl

theorem withdrawAssets_effect {ctx : WithdrawAssets} {amount : ℕ}
    (h : withdrawAssets s ctx amount = .ok s') : VenueEffect s s' (.withdrawAssets ctx amount) := by
  obtain ⟨asset, e, v, w, token, h⟩ := withdrawAssets_iff.1 h
  have hpaid := h.paid
  have hrecipient := h.recipient
  rw [← h.primary] at hrecipient
  rw [← h.primary, ← h.reserve] at hpaid
  have hvenue := vaultVenue_ok h.venue
  obtain rfl := h.state
  exact .withdrew hvenue hrecipient (transferChecked_ok hpaid) rfl

/-- **Specification of the venue instructions.** -/
theorem execVenue_effect (hc : s.core.terms.Coherent) {i : VenueInstruction}
    (h : execVenue s i = .ok s') : VenueEffect s s' i := by
  cases i with
  | registerVenue registryAuthority args =>
    obtain ⟨-, -, -, rfl⟩ := registerVenue_iff.1 h
    exact .still (by rintro _ _ ⟨⟩) rfl rfl
  | setVenueEntryPaused registryAuthority entry paused =>
    obtain ⟨-, e, -, -, rfl⟩ := setVenueEntryPaused_iff.1 h
    exact .still (by rintro _ _ ⟨⟩) rfl rfl
  | approveVaultVenue authority entry recipientAuthority =>
    obtain ⟨e, h⟩ := approveVaultVenue_iff.1 h
    obtain rfl := h.state
    exact .still (by rintro _ _ ⟨⟩) rfl rfl
  | removeVaultVenue authority entry =>
    obtain ⟨v, h⟩ := removeVaultVenue_iff.1 h
    obtain rfl := h.state
    exact .still (by rintro _ _ ⟨⟩) rfl rfl
  | createVenuePosition ctx => exact createVenuePosition_effect h
  | deployVenuePosition ctx amount =>
    obtain ⟨p, reserve, program, hfound, hasset, hsource, htoken, hbalance, hpositions⟩ :=
      deployVenuePosition_ok hc h
    exact .deployed hfound hasset hsource htoken hbalance hpositions
  | pullVenuePosition ctx amount =>
    obtain ⟨p, rest, reserve, program, hfound, hasset, htarget, htoken, hbalance, hleft,
      hpositions⟩ := pullVenuePosition_ok hc h
    exact .pulled hfound hasset htarget htoken hbalance hleft hpositions
  | removeVenuePosition ctx => exact removeVenuePosition_effect h
  | withdrawAssets ctx amount => exact withdrawAssets_effect h

/-- A venue instruction leaves every mint as it is. -/
theorem execVenue_mints (hc : s.core.terms.Coherent) {i : VenueInstruction}
    (h : execVenue s i = .ok s') : s'.core.token.mints = s.core.token.mints := by
  cases execVenue_effect hc h with
  | still recorded token => rw [token]
  | opened fresh token =>
    obtain ⟨-, htoken⟩ := initializeAccount_ok token
    rw [htoken, mints_setAccount]
  | deployed found asset source token => exact token.mints
  | pulled found asset target token => exact token.mints
  | closed found empty token =>
    obtain ⟨-, -, -, htoken⟩ := closeAccount_ok token
    rw [htoken]
  | withdrew venue held token => exact token.mints

end AsyncVault
