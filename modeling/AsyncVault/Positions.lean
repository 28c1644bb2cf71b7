/-
AsyncVault/Positions.lean

The ledger of positions.

What a vault has with its venues is written down three times: in each position,
in the deployed balance of the position's asset and, as a number of positions,
in the venue.  The three agree in every state of a run without managed calls
(`InOrder`), and the tokens of every position are there.

Deploying and pulling move one amount through all of them (`moved`).  The rest
of the program leaves them alone: it neither spends from the account of a
position (`exec_unspent`) nor writes to the balances of an asset
(`exec_holdings`), for an asset is listed and removed with both balances at zero.
-/
import AsyncVault.Exits
import AsyncVault.Reserve
import AsyncVault.RollingLimits

namespace AsyncVault

open Checked TokenLedger KeyedStore OrderBook Function Machine

variable {c c' : VaultState} {s s' : ManagedState} {k m a : Pubkey} {n : ℕ}
variable {remaining : List AccountInfo} {verify : MerkleCheck}

/-! ### What the core spends from -/

/-- A settled deposit is spent from its escrow. -/
theorem settleDeposit_spent {context : RequestShareMintContext} {ctx : ApproveRequest}
    {r : Request} {nav : ℕ} {share : Mint Pubkey} {x : Settlement}
    (h : settleDeposit c ctx context r nav share remaining = .ok x) :
    ∃ n, Spent c.token x.state.token ctx.pendingVault n := by
  obtain ⟨_, _, _, _, _, _, _, hs, rfl⟩ := settleDeposit_iff.1 h
  obtain ⟨tc, rfl, -⟩ := updateTrancheSupplyCache_terms hs.cached
  exact ⟨_, (paySettlementFee_ok hs.feePaid).trans (transferChecked_ok hs.paid).spent⟩

/-- A settled redemption is spent from the reserve. -/
theorem settleRedeem_spent {context : RequestShareMintContext} {ctx : ApproveRequest}
    {r : Request} {nav : ℕ} {share : Mint Pubkey} {x : Settlement}
    (h : settleRedeem c ctx context r nav share remaining = .ok x) :
    ∃ n, Spent c.token x.state.token ctx.vaultTokenAccount n := by
  obtain ⟨_, _, _, _, _, _, _, _, hs, rfl⟩ := settleRedeem_iff.1 h
  obtain ⟨tc, rfl, -⟩ := updateTrancheSupplyCache_terms hs.cached
  exact ⟨_, (paySettlementFee_ok hs.feePaid).trans (transferChecked_ok hs.paid).spent⟩

/-- An approval spends from the accounts of the primary asset only. -/
theorem approveRequest_unspent (hw : c.WellFormed) (hreserve : a ≠ c.vault.vaultTokenAccount)
    (hescrow : a ≠ c.vault.pendingVault) {ctx : ApproveRequest} {args : ApproveRequestArgs}
    (h : approveRequest c ctx args remaining = .ok c') :
    c.token.balance a ≤ c'.token.balance a := by
  obtain ⟨r, share, context, c₁, x, v, hacc, hsettles⟩ := approveRequest_iff.1 h
  have happ := (hacc.approvable hw.terms.coherent).1
  obtain ⟨ext, tc, rfl, -⟩ := advanceQueue_ok hsettles.queue
  rw [(decrementPendingRequests_ok hsettles.state).token]
  cases ht : r.requestType with
  | deposit =>
    obtain ⟨n, hspent⟩ := settleDeposit_spent (hsettles.deposit ht).1
    refine hspent.balance_of_ne a ?_
    rw [← happ.pendingVault]
    exact hescrow
  | redeem =>
    obtain ⟨n, hspent⟩ := settleRedeem_spent (hsettles.redeem ht).1
    refine hspent.balance_of_ne a ?_
    rw [← happ.reserve]
    exact hreserve

theorem execRequest_unspent (hw : c.WellFormed) (hreserve : a ≠ c.vault.vaultTokenAccount)
    (hescrow : ∀ m', c.terms.pendingVaultOf m' ≠ some a) (ha : c.token.Holds a m c.key)
    {i : RequestInstruction} (h : execRequest c i remaining = .ok c') :
    c.token.balance a ≤ c'.token.balance a := by
  by_cases hi : ∃ ctx args, i = .approveRequest ctx args
  · obtain ⟨ctx, args, rfl⟩ := hi
    refine approveRequest_unspent hw hreserve ?_ h
    rintro rfl
    exact hescrow _ c.terms.pendingVaultOf_primary
  · refine ((execRequest_ok hw.minting h).1.balance hw ?_ ha hescrow).ge
    cases i with
    | approveRequest ctx args => exact absurd ⟨ctx, args, rfl⟩ hi
    | _ => exact fun he => nomatch he

theorem instantDeposit_unspent (ha : c.token.Holds a m c.key) {ctx : InstantDeposit} {amount : ℕ}
    (h : instantDeposit c ctx amount remaining = .ok c') :
    c.token.balance a ≤ c'.token.balance a := by
  obtain ⟨_, _, _, _, _, _, _, token₁, token₂, token₃, hi⟩ := instantDeposit_iff.1 h
  have hpaid := payInstantFee_ok hi.feePaid
  have htr := transferChecked_ok hi.paid
  -- fee and assets come from the user
  have hsrc := htr.src_holds
  rw [hpaid.shape.holds_iff] at hsrc
  have hne : a ≠ ctx.userAssetAccount := ha.ne_of_owner hsrc hi.accepted.signer.symm
  rw [hi.state]
  calc c.token.balance a ≤ token₁.balance a := hpaid.balance_of_ne a hne
    _ ≤ token₂.balance a := htr.spent.balance_of_ne a hne
    _ ≤ token₃.balance a := (mintTo_ok hi.minted).balance_le a

theorem instantRedeem_unspent (hreserve : a ≠ c.vault.vaultTokenAccount)
    (ha : c.token.Holds a m c.key) {ctx : InstantRedeem} {shares : ℕ}
    (h : instantRedeem c ctx shares remaining = .ok c') :
    c.token.balance a ≤ c'.token.balance a := by
  obtain ⟨_, _, _, _, _, _, _, _, token₁, token₂, token₃, hi⟩ := instantRedeem_iff.1 h
  have hburned := burn_ok hi.burned
  have hne : a ≠ ctx.vaultTokenAccount := by
    rw [← hi.accepted.reserve]
    exact hreserve
  rw [hi.state]
  calc c.token.balance a ≤ token₁.balance a :=
        (hburned.balance_of_ne a (ha.ne_of_owner hburned.src_holds hi.accepted.signer.symm)).ge
    _ ≤ token₂.balance a := (payInstantFee_ok hi.feePaid).balance_of_ne a hne
    _ ≤ token₃.balance a := (transferChecked_ok hi.paid).spent.balance_of_ne a hne

/-- Configuration closes empty accounts only. -/
theorem execConfig_unspent (ha : c.token.Holds a m c.key) {i : ConfigInstruction}
    (h : execConfig c i = .ok c') : c.token.balance a ≤ c'.token.balance a := by
  by_cases hi : i.IsSetting
  · rw [(execConfig_reconfigured hi h).token]
  · cases i <;> try exact absurd trivial hi
    -- only the three instructions that move tokens are left
    case initializeTranches ctx args =>
      obtain ⟨token, hd⟩ := initializeTranches_divides h
      obtain rfl := hd.state
      show c.token.balance a ≤ token.balance a
      simp only [Ledger.balance, hd.accounts, le_refl]
    case addVaultAsset ctx depositCap =>
      obtain ⟨token₁, token, hl⟩ := addVaultAsset_listed h
      obtain rfl := hl.state
      have hu₁ := initializeAccount_untouched hl.reserve c.key
      have hu₂ := initializeAccount_untouched hl.pendingVault c.key
      exact ((hu₂.balance a m (hu₁.holds a m ha)).trans (hu₁.balance a m ha)).ge
    case removeVaultAsset authority asset =>
      obtain ⟨va, token₁, token, count, hremoved⟩ := removeVaultAsset_removed h
      -- the two accounts that are closed are empty, and no other is touched
      by_cases hr : a = va.reserve
      · rw [hr, hremoved.reserveEmpty]
        exact Nat.zero_le _
      by_cases hp : a = va.pendingVault
      · rw [hp, hremoved.escrowEmpty]
        exact Nat.zero_le _
      have hsame : token.accounts a = c.token.accounts a := hremoved.accounts.2 a hr hp
      rw [hremoved.state]
      show c.token.balance a ≤ token.balance a
      simp only [Ledger.balance, hsame, le_refl]

/-- **The core spends from no account of the vault but its reserve and the escrows.** -/
theorem exec_unspent (hw : c.WellFormed) (hreserve : a ≠ c.vault.vaultTokenAccount)
    (hescrow : ∀ m', c.terms.pendingVaultOf m' ≠ some a) (ha : c.token.HoldsAlone a m c.key)
    {b : Action} (h : exec c b = .ok c') : c.token.balance a ≤ c'.token.balance a := by
  cases b with
  | request i remaining => exact execRequest_unspent hw hreserve hescrow ha.holds h
  | instantDeposit ctx amount remaining => exact instantDeposit_unspent ha.holds h
  | instantRedeem ctx shares remaining => exact instantRedeem_unspent hreserve ha.holds h
  | updateVaultNav authority u remaining =>
    obtain ⟨version, mark, crystallized, tc, token, rfl, -, -, -, feeShares, hissued⟩ :=
      updateVaultNav_posted h
    exact hissued.balance_le a
  | config i => exact execConfig_unspent ha.holds h
  | world w =>
    obtain ⟨token, clock, htoken, rfl⟩ := execWorld_ok h
    exact (worldToken_outside htoken).balance a m ha

/-- The primary asset is the one the vault was created with. -/
theorem exec_assetMint {b : Action} (h : exec c b = .ok c') :
    c'.vault.assetMint = c.vault.assetMint := by
  -- what leaves the settings leaves the asset
  have hsettings : c'.vault.settings = c.vault.settings →
      c'.vault.assetMint = c.vault.assetMint := by
    intro hs
    show c'.vault.settings.assetMint = c.vault.settings.assetMint
    rw [hs]
  cases b with
  | request i remaining =>
    obtain ⟨d, hd, -⟩ := execRequest_worked h
    exact hsettings hd.settings
  | instantDeposit ctx amount remaining =>
    obtain ⟨net, -, -, hd⟩ := instantDeposit_worked h
    exact hsettings hd.settings
  | instantRedeem ctx shares remaining =>
    obtain ⟨gross, hd⟩ := instantRedeem_worked h
    exact hsettings hd.settings
  | updateVaultNav authority u remaining =>
    obtain ⟨version, mark, crystallized, tc, token, rfl, -⟩ := updateVaultNav_posted h
    rfl
  | config i =>
    -- no change of the configuration names it
    have hchange : ∀ change : Change, (c.change change).vault.assetMint = c.vault.assetMint := by
      intro change
      cases change <;> rfl
    cases execConfig_configured h with
    | changed => exact hchange _
    | executed => exact hchange _
    | _ => rfl
  | world w =>
    obtain ⟨token, clock, rfl, -⟩ := execWorld_outside h
    rfl

/-! ### The balances of an asset -/

/-- What is recorded of an asset: the idle and the deployed balance, none for one that is not
listed. -/
def VaultState.holdings (c : VaultState) (m : Pubkey) : ℕ × ℕ :=
  ((c.vaultAssets m).map VaultAsset.holdings).getD (0, 0)

theorem holdings_of_some {va : VaultAsset} (h : c.vaultAssets m = some va) :
    c.holdings m = (va.idleBalance, va.deployedBalance) := by
  simp [VaultState.holdings, h, VaultAsset.holdings]

theorem holdings_of_none (h : c.vaultAssets m = none) : c.holdings m = (0, 0) := by
  simp [VaultState.holdings, h]

theorem holdings_congr (h : (c'.vaultAssets m).map VaultAsset.holdings =
    (c.vaultAssets m).map VaultAsset.holdings) : c'.holdings m = c.holdings m := by
  simp only [VaultState.holdings, h]

theorem holdings_update (c c' : VaultState) {asset : Pubkey} {va : Option VaultAsset}
    (h : c'.vaultAssets = update c.vaultAssets asset va) (m : Pubkey) :
    c'.holdings m = if m = asset then (va.map VaultAsset.holdings).getD (0, 0)
      else c.holdings m := by
  by_cases hm : m = asset
  · subst hm
    simp [VaultState.holdings, h]
  · simp [VaultState.holdings, h, hm]

/-- An asset is listed and removed with both balances at zero. -/
theorem execConfig_holdings {i : ConfigInstruction} (h : execConfig c i = .ok c') (m : Pubkey) :
    c'.holdings m = c.holdings m := by
  by_cases hi : i.IsSetting
  · exact holdings_congr (by rw [(execConfig_reconfigured hi h).vaultAssets])
  · cases i <;> try exact absurd trivial hi
    -- of the three instructions that do more, a split keeps the list
    case initializeTranches ctx args =>
      obtain ⟨token, hd⟩ := initializeTranches_divides h
      rw [hd.state]
      rfl
    case addVaultAsset ctx depositCap =>
      obtain ⟨token₁, token, hl⟩ := addVaultAsset_listed h
      obtain rfl := hl.state
      rw [holdings_update _ _ rfl]
      split
      · next hm =>
        rw [hm, holdings_of_none hl.free]
        rfl
      · rfl
    -- a removal requires that nothing is idle or deployed
    case removeVaultAsset authority asset =>
      obtain ⟨va, token₁, token, count, hremoved⟩ := removeVaultAsset_removed h
      obtain rfl := hremoved.state
      rw [holdings_update _ _ rfl]
      split
      · next hm =>
        rw [hm, holdings_of_some hremoved.found, hremoved.idle, hremoved.deployed]
        rfl
      · rfl

/-- **The core writes to the balances of no asset.** -/
theorem exec_holdings (hc : c.terms.Coherent) {b : Action} (h : exec c b = .ok c') (m : Pubkey) :
    c'.holdings m = c.holdings m := by
  cases b with
  | request i remaining =>
    by_cases hi : ∃ ctx args, i = .approveRequest ctx args
    · obtain ⟨ctx, args, rfl⟩ := hi
      obtain ⟨r, -, -, -, -, hholdings, -⟩ := approveRequest_metered hc h
      exact holdings_congr (hholdings m)
    · exact holdings_congr
        ((execRequest_unmetered h fun ctx args hi' => hi ⟨ctx, args, hi'⟩).holdings m)
  | instantDeposit ctx amount remaining =>
    exact holdings_congr (by rw [(instantDeposit_metered h).2.1])
  | instantRedeem ctx shares remaining =>
    exact holdings_congr (by rw [(instantRedeem_metered h).2.2.1])
  | updateVaultNav authority u remaining =>
    obtain ⟨version, mark, crystallized, tc, token, rfl, -⟩ := updateVaultNav_posted h
    rfl
  | config i => exact execConfig_holdings h m
  | world w =>
    obtain ⟨token, clock, rfl, -⟩ := execWorld_outside h
    rfl

/-- What a movement of `amount` of the asset `asset` moves of `m`: the primary asset has no
balances of its own. -/
def VaultState.shift (c : VaultState) (asset : Pubkey) (amount : ℕ) (m : Pubkey) : ℕ :=
  if m = asset ∧ m ≠ c.vault.assetMint then amount else 0

theorem accountMovement_holdings (hc : s.core.terms.Coherent) {ctx : VenuePosition} {p : Position}
    {amount : ℕ} {unavailable : AsyncVaultError} {available : VaultAsset → ℕ}
    {move : PositionLedger → Result PositionLedger} {ledger : Option PositionLedger}
    (h : accountMovement s ctx p amount unavailable available move = .ok (c', ledger))
    (m : Pubkey) :
    (¬(m = ctx.assetMint ∧ m ≠ s.core.vault.assetMint) ∧ c'.holdings m = s.core.holdings m) ∨
      (m = ctx.assetMint ∧ m ≠ s.core.vault.assetMint) ∧
        ∃ l, move ⟨p.amount, (s.core.holdings m).1, (s.core.holdings m).2⟩ = .ok l ∧
          c'.holdings m = (l.idleBalance, l.deployedBalance) := by
  obtain ⟨start, used, h, -⟩ | ⟨m', va, start, used, l, h, -⟩ := accountMovement_iff.1 h
  -- the primary asset has no holdings of this kind
  · obtain rfl := h.state
    exact .inl ⟨fun h' => h'.2 (h'.1.trans h.primary.symm), rfl⟩
  · have hne := h.secondary
    have hl := h.moved
    obtain ⟨hfound, hlisted⟩ := secondaryAsset_ok hc h.asset
    obtain rfl := h.state
    obtain rfl := Option.some.inj hfound
    -- of another asset the one entry is written
    have hupdate := holdings_update s.core { s.core with
      vaultAssets := update s.core.vaultAssets ctx.assetMint (some { va with
        managerWindowStartSlot := start
        managerWindowAmount := used
        idleBalance := l.idleBalance
        deployedBalance := l.deployedBalance }) } rfl m
    by_cases hm : m = ctx.assetMint
    · refine .inr ⟨⟨hm, fun he => hne (he.symm.trans hm)⟩, l, ?_, ?_⟩
      · rw [hm, holdings_of_some hlisted]
        exact hl
      · rw [hupdate, if_pos hm]
        rfl
    · refine .inl ⟨fun h' => hm h'.1, ?_⟩
      rw [hupdate, if_neg hm]

/-! ### Deploying and pulling -/

/-- A deployment takes what it moves of an asset from the idle to the deployed balance. -/
theorem deployVenuePosition_holdings (hc : s.core.terms.Coherent) {ctx : VenuePosition}
    {amount : ℕ} (h : deployVenuePosition s ctx amount = .ok s') (m : Pubkey) :
    (s'.core.holdings m).1 + s.core.shift ctx.assetMint amount m = (s.core.holdings m).1 ∧
      (s'.core.holdings m).2 = (s.core.holdings m).2 + s.core.shift ctx.assetMint amount m := by
  obtain ⟨p, core, ledger, token, recorded, h⟩ := deployVenuePosition_iff.1 h
  obtain rfl := h.state
  have htoken : VaultState.holdings { core with token := token } m = core.holdings m := rfl
  simp only [htoken, VaultState.shift]
  rcases accountMovement_holdings hc h.charged m with ⟨hother, hkept⟩ | ⟨hmoved, l, hl, hafter⟩
  · rw [if_neg hother, hkept]
    exact ⟨rfl, rfl⟩
  · simp only [PositionLedger.deploy, bind_eq_ok, ensure_eq_ok, add_eq_ok, sub_eq_ok,
      pure_eq_ok] at hl
    obtain ⟨-, hle, _, -, _, ⟨-, rfl⟩, _, ⟨-, rfl⟩, rfl⟩ := hl
    rw [if_pos hmoved, hafter]
    exact ⟨Nat.sub_add_cancel hle, rfl⟩

/-- A pull takes it back. -/
theorem pullVenuePosition_holdings (hc : s.core.terms.Coherent) {ctx : VenuePosition}
    {amount : ℕ} (h : pullVenuePosition s ctx amount = .ok s') (m : Pubkey) :
    (s'.core.holdings m).1 = (s.core.holdings m).1 + s.core.shift ctx.assetMint amount m ∧
      (s'.core.holdings m).2 + s.core.shift ctx.assetMint amount m = (s.core.holdings m).2 := by
  obtain ⟨p, core, ledger, token, recorded, h⟩ := pullVenuePosition_iff.1 h
  obtain rfl := h.state
  have htoken : VaultState.holdings { core with token := token } m = core.holdings m := rfl
  simp only [htoken, VaultState.shift]
  rcases accountMovement_holdings hc h.charged m with ⟨hother, hkept⟩ | ⟨hmoved, l, hl, hafter⟩
  · rw [if_neg hother, hkept]
    exact ⟨rfl, rfl⟩
  · simp only [PositionLedger.pull, bind_eq_ok, ensure_eq_ok, add_eq_ok, sub_eq_ok,
      pure_eq_ok] at hl
    obtain ⟨-, -, _, -, _, ⟨-, rfl⟩, _, ⟨hle, rfl⟩, rfl⟩ := hl
    rw [if_pos hmoved, hafter]
    exact ⟨rfl, Nat.sub_add_cancel hle⟩

/-- A deployment arrives whole. -/
theorem deployVenuePosition_credited {ctx : VenuePosition} {amount : ℕ} {p : Position}
    (h : deployVenuePosition s ctx amount = .ok s')
    (hp : s.positions.lookup (ctx.venueEntry, ctx.assetMint) = some p) :
    s'.core.token.balance p.tokenAccount = s.core.token.balance p.tokenAccount + amount := by
  obtain ⟨p', core, ledger, token, recorded, h⟩ := deployVenuePosition_iff.1 h
  obtain ⟨asset, e, v, hmovable⟩ := h.movable
  obtain rfl := Option.some.inj (hp.symm.trans hmovable.found)
  have hcredited := h.credited
  obtain rfl := h.state
  rw [hmovable.tokenAccount]
  exact hcredited

/-! ### Order -/

/-- One for a position of the venue. -/
def Position.counts (k : VenueEntryKey) (p : Position) : ℕ := if p.venueEntry = k then 1 else 0

/-- The number of open positions of a venue. -/
def ManagedState.openPositions (s : ManagedState) (k : VenueEntryKey) : ℕ :=
  total (Position.counts k) s.positions

/-- What all open positions record of an asset. -/
def ManagedState.recorded (s : ManagedState) (m : Pubkey) : ℕ :=
  total (Position.recorded m) s.positions

/-- The number of positions the vault's approval of a venue states, none without an approval. -/
def ManagedState.positionCount (s : ManagedState) (k : VenueEntryKey) : ℕ :=
  ((s.vaultVenues k).map VaultVenue.positionCount).getD 0

/-- **The ledger of positions is in order**: the deployed balance of every secondary asset is
what the open positions record of it, every position has its tokens, and every venue counts its
positions. -/
structure ManagedState.InOrder (s : ManagedState) : Prop extends Custodial s where
  deployed : ∀ m, m ≠ s.core.vault.assetMint → s.recorded m = (s.core.holdings m).2
  covered : ∀ k p, s.positions.lookup k = some p →
    p.amount ≤ s.core.token.balance p.tokenAccount
  counted : ∀ k, s.positionCount k = s.openPositions k

theorem positionCount_update {k' : VenueEntryKey} {v : Option VaultVenue}
    (h : s'.vaultVenues = update s.vaultVenues k' v) (k : VenueEntryKey) :
    s'.positionCount k = if k = k' then (v.map VaultVenue.positionCount).getD 0
      else s.positionCount k := by
  by_cases hk : k = k'
  · subst hk
    simp [ManagedState.positionCount, h]
  · simp [ManagedState.positionCount, h, hk]

theorem positionCount_of_some {k : VenueEntryKey} {v : VaultVenue}
    (h : s.vaultVenues k = some v) : s.positionCount k = v.positionCount := by
  simp [ManagedState.positionCount, h]

/-- Recording another amount leaves the number of positions. -/
theorem openPositions_record {key : VenueEntryKey × Pubkey} {p : Position} {amount : ℕ}
    (hfound : s.positions.lookup key = some p)
    (hp : s'.positions = s.positions.insert key { p with amount := amount }) (k : VenueEntryKey) :
    s'.openPositions k = s.openPositions k := by
  have htotal := total_insert_of_some (w := Position.counts k) (u := { p with amount := amount })
    hfound
  have hsame : Position.counts k { p with amount := amount } = Position.counts k p := rfl
  rw [hsame] at htotal
  simp only [ManagedState.openPositions, hp]
  omega

theorem createVenuePosition_counted {ctx : VenuePosition}
    (h : createVenuePosition s ctx = .ok s') (hs : ∀ k, s.positionCount k = s.openPositions k)
    (k : VenueEntryKey) : s'.positionCount k = s'.openPositions k := by
  obtain ⟨e, v, token, h⟩ := createVenuePosition_iff.1 h
  have hvenue := vaultVenue_ok h.venue
  have hfresh := h.fresh
  obtain rfl := h.state
  have hk := hs k
  simp only [ManagedState.openPositions] at hk ⊢
  rw [positionCount_update rfl, total_insert_of_none hfresh, ← hk]
  by_cases he : k = ctx.venueEntry
  · subst he
    rw [positionCount_of_some hvenue]
    simp [Position.counts]
  · simp [Position.counts, he, Ne.symm he]

theorem removeVenuePosition_counted {ctx : VenuePosition}
    (h : removeVenuePosition s ctx = .ok s') (hs : ∀ k, s.positionCount k = s.openPositions k)
    (k : VenueEntryKey) : s'.positionCount k = s'.openPositions k := by
  obtain ⟨p, asset, v, token, h⟩ := removeVenuePosition_iff.1 h
  have hv := vaultVenue_ok h.venue
  have hvenue := h.venueEntry
  have hfound := h.found
  have hpos := h.counted
  obtain rfl := h.state
  have hk := hs k
  have htotal := total_erase_of_some (w := Position.counts k) hfound
  simp only [ManagedState.openPositions] at hk ⊢
  rw [positionCount_update rfl]
  by_cases he : k = ctx.venueEntry
  · subst he
    rw [positionCount_of_some hv] at hk
    simp only [Position.counts, hvenue, if_true] at htotal hk ⊢
    simp only [Option.map_some, Option.getD_some]
    omega
  · rw [if_neg he]
    simp only [Position.counts, hvenue, if_neg (Ne.symm he)] at htotal hk ⊢
    omega

/-- Every venue instruction keeps the count of positions. -/
theorem execVenue_counted (hc : s.core.terms.Coherent) {i : VenueInstruction}
    (h : execVenue s i = .ok s') (hs : ∀ k, s.positionCount k = s.openPositions k)
    (k : VenueEntryKey) : s'.positionCount k = s'.openPositions k := by
  cases i with
  | registerVenue registryAuthority args =>
    obtain ⟨-, -, -, rfl⟩ := registerVenue_iff.1 h
    exact hs k
  | setVenueEntryPaused registryAuthority entry paused =>
    obtain ⟨-, e, -, -, rfl⟩ := setVenueEntryPaused_iff.1 h
    exact hs k
  -- a new approval counts none, and there is none without an approval
  | approveVaultVenue authority entry recipientAuthority =>
    obtain ⟨e, h⟩ := approveVaultVenue_iff.1 h
    have hfree := h.fresh
    obtain rfl := h.state
    rw [positionCount_update rfl]
    split
    · next hk =>
      have hnone : s.positionCount k = 0 := by simp [ManagedState.positionCount, hk, hfree]
      exact hnone.symm.trans (hs k)
    · exact hs k
  | removeVaultVenue authority entry =>
    obtain ⟨v, h⟩ := removeVaultVenue_iff.1 h
    have hempty := h.empty
    have hv := vaultVenue_ok h.venue
    obtain rfl := h.state
    rw [positionCount_update rfl]
    split
    · next hk =>
      have hzero : s.positionCount k = 0 := by
        rw [hk, positionCount_of_some hv, hempty]
      exact hzero.symm.trans (hs k)
    · exact hs k
  | createVenuePosition ctx => exact createVenuePosition_counted h hs k
  -- movements change the amount of a position that is open
  | deployVenuePosition ctx amount =>
    have hvenues : s'.vaultVenues = s.vaultVenues := by
      obtain ⟨p, core, ledger, token, recorded, h⟩ := deployVenuePosition_iff.1 h
      rw [h.state]
    obtain ⟨p, -, -, hfound, -, -, -, -, hpositions⟩ := deployVenuePosition_ok hc h
    rw [openPositions_record hfound hpositions, ← hs k]
    simp only [ManagedState.positionCount, hvenues]
  | pullVenuePosition ctx amount =>
    have hvenues : s'.vaultVenues = s.vaultVenues := by
      obtain ⟨p, core, ledger, token, recorded, h⟩ := pullVenuePosition_iff.1 h
      rw [h.state]
    obtain ⟨p, rest, -, -, hfound, -, -, -, -, -, hpositions⟩ := pullVenuePosition_ok hc h
    rw [openPositions_record hfound hpositions, ← hs k]
    simp only [ManagedState.positionCount, hvenues]
  | removeVenuePosition ctx => exact removeVenuePosition_counted h hs k
  | withdrawAssets ctx amount =>
    obtain ⟨asset, e, v, w, token, h⟩ := withdrawAssets_iff.1 h
    obtain rfl := h.state
    exact hs k

/-! ### Steps -/

/-- A position of the asset counts with what it records, and the others do not. -/
theorem recorded_record {key : VenueEntryKey × Pubkey} {p : Position} {asset : Pubkey}
    {amount : ℕ} (hfound : s.positions.lookup key = some p) (hasset : p.assetMint = asset)
    (hp : s'.positions = s.positions.insert key { p with amount := amount }) (m : Pubkey) :
    s'.recorded m + (if m = asset then p.amount else 0) =
      s.recorded m + if m = asset then amount else 0 := by
  simp only [ManagedState.recorded, hp]
  by_cases hm : m = asset
  · simp only [if_pos hm]
    exact total_recorded_of_eq hfound (hasset.trans hm.symm)
  · simp only [if_neg hm, Nat.add_zero]
    exact total_recorded_of_ne hfound fun he => hm (he.symm.trans hasset)

/-- Every venue instruction keeps the deployed balances at what positions record. -/
theorem execVenue_deployed (hc : s.core.terms.Coherent) {i : VenueInstruction}
    (h : execVenue s i = .ok s') (hm : m ≠ s.core.vault.assetMint)
    (hs : s.recorded m = (s.core.holdings m).2) : s'.recorded m = (s'.core.holdings m).2 := by
  cases i with
  | registerVenue registryAuthority args =>
    obtain ⟨-, -, -, rfl⟩ := registerVenue_iff.1 h
    exact hs
  | setVenueEntryPaused registryAuthority entry paused =>
    obtain ⟨-, e, -, -, rfl⟩ := setVenueEntryPaused_iff.1 h
    exact hs
  | approveVaultVenue authority entry recipientAuthority =>
    obtain ⟨e, h⟩ := approveVaultVenue_iff.1 h
    obtain rfl := h.state
    exact hs
  | removeVaultVenue authority entry =>
    obtain ⟨v, h⟩ := removeVaultVenue_iff.1 h
    obtain rfl := h.state
    exact hs
  | createVenuePosition ctx =>
    obtain ⟨e, v, token, h⟩ := createVenuePosition_iff.1 h
    have hfresh := h.fresh
    obtain rfl := h.state
    -- a position is opened empty
    refine Eq.trans ?_ hs
    exact (total_insert_of_none hfresh).trans (by rw [Position.recorded_of_empty rfl]; rfl)
  | deployVenuePosition ctx amount =>
    obtain ⟨p, -, -, hfound, hasset, -, -, -, hpositions⟩ := deployVenuePosition_ok hc h
    have hrecorded := recorded_record hfound hasset hpositions m
    have hholdings := (deployVenuePosition_holdings hc h m).2
    simp only [VaultState.shift, hm, ne_eq, not_false_eq_true, and_true] at hholdings
    split_ifs at hrecorded hholdings <;> omega
  | pullVenuePosition ctx amount =>
    obtain ⟨p, rest, -, -, hfound, hasset, -, -, -, hleft, hpositions⟩ := pullVenuePosition_ok hc h
    have hrecorded := recorded_record hfound hasset hpositions m
    have hholdings := (pullVenuePosition_holdings hc h m).2
    simp only [VaultState.shift, hm, ne_eq, not_false_eq_true, and_true] at hholdings
    split_ifs at hrecorded hholdings <;> omega
  | removeVenuePosition ctx =>
    obtain ⟨p, asset, v, token, h⟩ := removeVenuePosition_iff.1 h
    have hfound := h.found
    have hempty := h.empty
    obtain rfl := h.state
    have htotal := total_erase_of_some (w := Position.recorded m) hfound
    rw [Position.recorded_of_empty hempty, Nat.add_zero] at htotal
    exact htotal.trans hs
  | withdrawAssets ctx amount =>
    obtain ⟨asset, e, v, w, token, h⟩ := withdrawAssets_iff.1 h
    obtain rfl := h.state
    exact hs

namespace ManagedState.InOrder

/-- The account of an open position is the vault's. -/
theorem account (h : s.InOrder) {key : VenueEntryKey × Pubkey} {p : Position}
    (hp : s.positions.lookup key = some p) :
    s.core.token.HoldsAlone p.tokenAccount key.2 s.core.key ∧
      ¬s.core.terms.Uses p.tokenAccount := by
  have hkey : s.positionAccount key = some p.tokenAccount := by
    simp [ManagedState.positionAccount, hp]
  exact ⟨h.alone key _ hkey, h.unused key _ hkey⟩

theorem account_ne (h : s.InOrder) {key key' : VenueEntryKey × Pubkey} {p p' : Position}
    (hp : s.positions.lookup key = some p) (hp' : s.positions.lookup key' = some p')
    (hne : key ≠ key') : p.tokenAccount ≠ p'.tokenAccount := by
  intro he
  refine hne (h.distinct key key' p.tokenAccount ?_ ?_)
  · simp [ManagedState.positionAccount, hp]
  · simp [ManagedState.positionAccount, hp', he]

/-- A venue instruction opens a position empty, and leaves the others what their accounts have
over the recorded amounts. -/
theorem execVenue_surplus (hs : s.InOrder) {i : VenueInstruction} (h : execVenue s i = .ok s')
    {key : VenueEntryKey × Pubkey} {p' : Position} (hp' : s'.positions.lookup key = some p') :
    (s.positions.lookup key = none ∧ p'.amount = 0) ∨
      ∃ p, s.positions.lookup key = some p ∧ p'.tokenAccount = p.tokenAccount ∧
        p'.amount + s.core.token.balance p.tokenAccount ≤
          p.amount + s'.core.token.balance p.tokenAccount := by
  -- a position that stays has its account left alone or credited
  have hsame : ∀ p, s.positions.lookup key = some p → p' = p →
      s.core.token.balance p.tokenAccount ≤ s'.core.token.balance p.tokenAccount →
      ∃ p, s.positions.lookup key = some p ∧ p'.tokenAccount = p.tokenAccount ∧
        p'.amount + s.core.token.balance p.tokenAccount ≤
          p.amount + s'.core.token.balance p.tokenAccount := by
    rintro p hp rfl hle
    exact ⟨p', hp, rfl, Nat.add_le_add_left hle _⟩
  cases execVenue_effect hs.valid.coherent h with
  | still recorded token positions =>
    exact .inr (hsame p' (positions ▸ hp') rfl (by rw [token]))
  | @opened ctx p₀ program fresh token asset empty positions =>
    rw [positions] at hp'
    by_cases hk : key = (ctx.venueEntry, ctx.assetMint)
    · subst hk
      obtain rfl := Option.some.inj ((AList.lookup_insert _).symm.trans hp')
      exact .inl ⟨fresh, empty⟩
    · rw [AList.lookup_insert_ne hk] at hp'
      have hu := initializeAccount_untouched token s.core.key
      exact .inr (hsame p' hp' rfl (hu.balance _ _ (hs.account hp').1.holds).ge)
  | @deployed ctx amount p₀ reserve program found asset source token balance positions =>
    rw [positions] at hp'
    by_cases hk : key = (ctx.venueEntry, ctx.assetMint)
    · subst hk
      obtain rfl := Option.some.inj ((AList.lookup_insert _).symm.trans hp')
      -- what is deployed arrives, so record and account grow alike
      have hcredit := deployVenuePosition_credited h found
      refine .inr ⟨p₀, found, rfl, ?_⟩
      show p₀.amount + amount + s.core.token.balance p₀.tokenAccount ≤ _
      omega
    · rw [AList.lookup_insert_ne hk] at hp'
      refine .inr (hsame p' hp' rfl (token.spent.balance_of_ne _ ?_))
      rintro rfl
      exact (hs.account hp').2 (Terms.uses_reserve source)
  | @pulled ctx amount rest p₀ reserve program found asset target token balance left positions =>
    rw [positions] at hp'
    by_cases hk : key = (ctx.venueEntry, ctx.assetMint)
    · subst hk
      obtain rfl := Option.some.inj ((AList.lookup_insert _).symm.trans hp')
      have hne : p₀.tokenAccount ≠ reserve := by
        rintro rfl
        exact (hs.account found).2 (Terms.uses_reserve target)
      -- what is pulled leaves both
      have hpaid := token.balance_src hne
      refine .inr ⟨p₀, found, rfl, ?_⟩
      show rest + s.core.token.balance p₀.tokenAccount ≤ _
      omega
    · rw [AList.lookup_insert_ne hk] at hp'
      exact .inr (hsame p' hp' rfl
        (token.spent.balance_of_ne _ (hs.account_ne hp' found hk)))
  | @closed ctx p₀ found empty token positions =>
    rw [positions] at hp'
    have hk : key ≠ (ctx.venueEntry, ctx.assetMint) := by
      rintro rfl
      rw [AList.lookup_erase] at hp'
      cases hp'
    rw [AList.lookup_erase_ne hk] at hp'
    obtain ⟨-, -, -, htoken⟩ := closeAccount_ok token
    refine .inr (hsame p' hp' rfl (le_of_eq ?_))
    simp only [Ledger.balance, htoken, update_of_ne (hs.account_ne hp' found hk)]
  | withdrew venue held token positions =>
    rw [positions] at hp'
    refine .inr (hsame p' hp' rfl (token.spent.balance_of_ne _ ?_))
    intro he
    exact (hs.account hp').2 (.inl he)

/-- After a venue instruction every position still has its tokens. -/
theorem execVenue_covered (hs : s.InOrder) {i : VenueInstruction} (h : execVenue s i = .ok s')
    {key : VenueEntryKey × Pubkey} {p : Position} (hp : s'.positions.lookup key = some p) :
    p.amount ≤ s'.core.token.balance p.tokenAccount := by
  rcases hs.execVenue_surplus h hp with ⟨-, hempty⟩ | ⟨p₀, hp₀, haccount, hle⟩
  · rw [hempty]
    exact Nat.zero_le _
  · have hcovered := hs.covered key p₀ hp₀
    rw [haccount]
    omega

/-- **Every instruction but a managed call keeps the ledger in order.** -/
theorem execManaged (hs : s.InOrder) {b : ManagedAction} (hb : b.Unmanaged)
    (h : execManaged verify s b = .ok s') : s'.InOrder := by
  have hcustodial := hs.toCustodial.execManaged hb h
  cases b with
  | core b =>
    simp only [AsyncVault.execManaged, bind_eq_ok, pure_eq_ok] at h
    obtain ⟨c, hc, rfl⟩ := h
    -- the core spends from no position and leaves what the ledgers say of the assets
    have hw := hs.ledgered.wellFormed
    refine ⟨hcustodial, fun m hm => ?_, fun key p hp => ?_, hs.counted⟩
    · have hasset : c.vault.assetMint = s.core.vault.assetMint := exec_assetMint hc
      rw [show ({ s with core := c } : ManagedState).core = c from rfl,
        exec_holdings hw.terms.coherent hc]
      exact hs.deployed m (hasset ▸ hm)
    · obtain ⟨hholds, hunused⟩ := hs.account hp
      exact (hs.covered key p hp).trans (exec_unspent hw (fun he => hunused (.inl he))
        (fun m' hm' => hunused (Terms.uses_pendingVault hm')) hholds hc)
  | venue i =>
    have hasset : s'.core.vault.assetMint = s.core.vault.assetMint :=
      congrArg Terms.assetMint (execVenue_kept hs.valid.coherent h).terms
    exact ⟨hcustodial, fun m hm => execVenue_deployed hs.valid.coherent h (hasset ▸ hm)
        (hs.deployed m (hasset ▸ hm)), fun key p hp => hs.execVenue_covered h hp,
      execVenue_counted hs.valid.coherent h hs.counted⟩
  | policy i =>
    obtain ⟨policies, pending, rfl⟩ := execPolicy_still h
    exact ⟨hcustodial, hs.deployed, hs.covered, hs.counted⟩
  | manageVault => exact hb.elim

end ManagedState.InOrder

/-! ### Closing -/

/-- What is closed was empty: a position records nothing and its account holds nothing, a venue
has no open position, an asset has no balance. -/
structure ManagedState.ClosesEmpty (s s' : ManagedState) : Prop where
  position : ∀ key p, s.positions.lookup key = some p → s'.positions.lookup key = none →
    p.amount = 0 ∧ s.core.token.balance p.tokenAccount = 0
  venue : ∀ k v, s.vaultVenues k = some v → s'.vaultVenues k = none →
    v.positionCount = 0 ∧ s.openPositions k = 0
  asset : ∀ m va, s.core.vaultAssets m = some va → s'.core.vaultAssets m = none →
    va.idleBalance = 0 ∧ va.deployedBalance = 0 ∧ va.pendingDepositAmount = 0

/-- What a transaction does to the list of assets. -/
inductive Relisted (c c' : VaultState) : Prop
  | kept (assets : c'.terms.assets = c.terms.assets)
      (count : c'.vault.approvedAssetCount = c.vault.approvedAssetCount) : Relisted c c'
  | listed {ctx : AddVaultAsset} {depositCap : ℕ} {token₁ token : Ledger Pubkey}
      (listed : Listed c c' ctx depositCap token₁ token) : Relisted c c'
  | removed {m : Pubkey} {va : VaultAsset} {token₁ token : Ledger Pubkey} {count : ℕ}
      (removed : Removed c c' m va token₁ token count) : Relisted c c'

theorem Relisted.of_settings (h : c'.terms = c.terms)
    (hs : c'.vault.settings = c.vault.settings) : Relisted c c' := by
  refine .kept (congrArg Terms.assets h) ?_
  show c'.vault.settings.approvedAssetCount = c.vault.settings.approvedAssetCount
  rw [hs]

theorem execConfig_relisted {i : ConfigInstruction} (h : execConfig c i = .ok c') :
    Relisted c c' := by
  by_cases hi : i.IsSetting
  · refine .kept ?_ ?_
    · have hassets := (execConfig_reconfigured hi h).vaultAssets
      simp [VaultState.terms, hassets]
    · have hchange : ∀ change : Change,
          (c.change change).vault.approvedAssetCount = c.vault.approvedAssetCount := by
        intro change
        cases change <;> rfl
      cases execConfig_configured h with
      | changed => exact hchange _
      | executed => exact hchange _
      | listed relists => exact absurd hi relists
      | _ => rfl
  · cases i <;> try exact absurd trivial hi
    case initializeTranches ctx args =>
      obtain ⟨token, hd⟩ := initializeTranches_divides h
      rw [hd.state]
      exact .kept rfl rfl
    case addVaultAsset ctx depositCap =>
      obtain ⟨token₁, token, hl⟩ := addVaultAsset_listed h
      exact .listed hl
    case removeVaultAsset authority asset =>
      obtain ⟨va, token₁, token, count, hremoved⟩ := removeVaultAsset_removed h
      exact .removed hremoved

theorem exec_relisted (hw : c.WellFormed) {b : Action} (h : exec c b = .ok c') :
    Relisted c c' := by
  cases b with
  | request i remaining =>
    obtain ⟨d, hd, -⟩ := execRequest_worked h
    exact .of_settings (execRequest_tally hw.terms.coherent hw.requests h).1.terms hd.settings
  | instantDeposit ctx amount remaining =>
    obtain ⟨net, -, -, hd⟩ := instantDeposit_worked h
    exact .of_settings (instantDeposit_settles h).terms hd.settings
  | instantRedeem ctx shares remaining =>
    obtain ⟨gross, hd⟩ := instantRedeem_worked h
    exact .of_settings (instantRedeem_settles h).terms hd.settings
  | updateVaultNav authority u remaining =>
    refine .kept (congrArg Terms.assets (updateVaultNav_settles h).terms) ?_
    obtain ⟨version, mark, crystallized, tc, token, rfl, -⟩ := updateVaultNav_posted h
    rfl
  | config i => exact execConfig_relisted h
  | world w =>
    obtain ⟨token, clock, rfl, -⟩ := execWorld_outside h
    exact .kept rfl rfl

/-- A listed asset keeps its accounts, or was emptied and removed. -/
theorem Relisted.asset (h : Relisted c c') {va : VaultAsset} (hva : c.vaultAssets m = some va) :
    (∃ va', c'.vaultAssets m = some va' ∧ va'.terms = va.terms) ∨
      c'.vaultAssets m = none ∧
      va.idleBalance = 0 ∧ va.deployedBalance = 0 ∧ va.pendingDepositAmount = 0 ∧
        c.token.balance va.reserve = 0 ∧ c.token.balance va.pendingVault = 0 ∧
        c.token.withheld va.reserve = 0 ∧ c.token.withheld va.pendingVault = 0 := by
  cases h with
  | kept assets =>
    have hassets := congrFun assets m
    simp only [VaultState.terms, hva, Option.map_some, Option.map_eq_some_iff] at hassets
    exact .inl hassets
  | @listed ctx depositCap token₁ token hl =>
    -- an asset is listed where there is none
    have hm : m ≠ ctx.assetMint := by
      rintro rfl
      exact absurd (hva.symm.trans hl.free) (by simp)
    refine .inl ⟨va, ?_, rfl⟩
    rw [hl.state]
    exact (update_of_ne hm _ _).trans hva
  | @removed asset va' token₁ token count hremoved =>
    by_cases hm : m = asset
    · subst hm
      obtain rfl := Option.some.inj (hva.symm.trans hremoved.found)
      refine .inr ⟨?_, hremoved.idle, hremoved.deployed, hremoved.pending, hremoved.reserveEmpty,
        hremoved.escrowEmpty, hremoved.reserveSettled, hremoved.escrowSettled⟩
      rw [hremoved.state]
      exact update_self ..
    · refine .inl ⟨va, ?_, rfl⟩
      rw [hremoved.state]
      exact (update_of_ne hm _ _).trans hva

/-- A position that goes was closed, and was empty. -/
theorem execVenue_closes (hc : s.core.terms.Coherent) {i : VenueInstruction}
    (h : execVenue s i = .ok s') {key : VenueEntryKey × Pubkey} {p : Position}
    (hp : s.positions.lookup key = some p) (hgone : s'.positions.lookup key = none) :
    p.amount = 0 ∧ s.core.token.balance p.tokenAccount = 0 ∧
      s.core.token.withheld p.tokenAccount = 0 := by
  -- writing a position removes none
  have hinsert : ∀ (key' : VenueEntryKey × Pubkey) (p' : Position),
      s'.positions ≠ s.positions.insert key' p' := by
    intro key' p' he
    rw [he] at hgone
    by_cases hk : key = key'
    · subst hk
      simp at hgone
    · rw [AList.lookup_insert_ne hk, hp] at hgone
      cases hgone
  have hsame : s'.positions ≠ s.positions := by
    intro he
    rw [he, hp] at hgone
    cases hgone
  cases execVenue_effect hc h with
  | still recorded token positions => exact absurd positions hsame
  | opened fresh token asset empty positions => exact absurd positions (hinsert _ _)
  | deployed found asset source token balance positions => exact absurd positions (hinsert _ _)
  | pulled found asset target token balance left positions => exact absurd positions (hinsert _ _)
  | @closed ctx p' found empty token positions =>
    by_cases hk : key = (ctx.venueEntry, ctx.assetMint)
    · subst hk
      obtain rfl := Option.some.inj (hp.symm.trans found)
      exact ⟨empty, closeAccount_empty token⟩
    · rw [positions, AList.lookup_erase_ne hk, hp] at hgone
      cases hgone
  | withdrew venue held token positions => exact absurd positions hsame

/-- An approval that goes was removed, and counted no position. -/
theorem execVenue_removes {i : VenueInstruction} (h : execVenue s i = .ok s') {k : VenueEntryKey}
    {v : VaultVenue} (hv : s.vaultVenues k = some v) (hgone : s'.vaultVenues k = none) :
    v.positionCount = 0 := by
  have hsame : s'.vaultVenues ≠ s.vaultVenues := by
    intro he
    rw [he, hv] at hgone
    cases hgone
  -- writing an approval removes none
  have hupdate : ∀ k' v', s'.vaultVenues ≠ update s.vaultVenues k' (some v') := by
    intro k' v' he
    rw [he, update_apply] at hgone
    split at hgone
    · cases hgone
    · rw [hv] at hgone
      cases hgone
  cases i with
  | registerVenue registryAuthority args =>
    obtain ⟨-, -, -, rfl⟩ := registerVenue_iff.1 h
    exact absurd rfl hsame
  | setVenueEntryPaused registryAuthority entry paused =>
    obtain ⟨-, e, -, -, rfl⟩ := setVenueEntryPaused_iff.1 h
    exact absurd rfl hsame
  | approveVaultVenue authority entry recipientAuthority =>
    obtain ⟨e, h⟩ := approveVaultVenue_iff.1 h
    obtain rfl := h.state
    exact absurd rfl (hupdate _ _)
  | removeVaultVenue authority entry =>
    obtain ⟨v', h⟩ := removeVaultVenue_iff.1 h
    -- the one instruction that removes an approval wants it without positions
    have hempty := h.empty
    have hv' := vaultVenue_ok h.venue
    obtain rfl := h.state
    simp only [update_apply] at hgone
    split at hgone
    · next hk =>
      obtain rfl := Option.some.inj (hv.symm.trans (hk ▸ hv'))
      exact hempty
    · rw [hv] at hgone
      cases hgone
  | createVenuePosition ctx =>
    obtain ⟨e, v', token, h⟩ := createVenuePosition_iff.1 h
    obtain rfl := h.state
    exact absurd rfl (hupdate _ _)
  | deployVenuePosition ctx amount =>
    obtain ⟨p, core, ledger, token, n, h⟩ := deployVenuePosition_iff.1 h
    obtain rfl := h.state
    exact absurd rfl hsame
  | pullVenuePosition ctx amount =>
    obtain ⟨p, core, ledger, token, n, h⟩ := pullVenuePosition_iff.1 h
    obtain rfl := h.state
    exact absurd rfl hsame
  | removeVenuePosition ctx =>
    obtain ⟨p, asset, v', token, h⟩ := removeVenuePosition_iff.1 h
    obtain rfl := h.state
    exact absurd rfl (hupdate _ _)
  | withdrawAssets ctx amount =>
    obtain ⟨asset, e, v', w, token, h⟩ := withdrawAssets_iff.1 h
    obtain rfl := h.state
    exact absurd rfl hsame

theorem ManagedState.InOrder.closesEmpty (hs : s.InOrder) {b : ManagedAction} (hb : b.Unmanaged)
    (h : AsyncVault.execManaged verify s b = .ok s') : s.ClosesEmpty s' := by
  -- the count of an approval is the number of its open positions
  have hcounted : ∀ k v, s.vaultVenues k = some v → v.positionCount = 0 →
      v.positionCount = 0 ∧ s.openPositions k = 0 := by
    intro k v hv hzero
    refine ⟨hzero, ?_⟩
    rw [← hs.counted k, positionCount_of_some hv, hzero]
  cases b with
  -- the core knows assets only
  | core b =>
    simp only [AsyncVault.execManaged, bind_eq_ok, pure_eq_ok] at h
    obtain ⟨c, hexec, rfl⟩ := h
    refine ⟨fun key p hp hgone => ?_, fun k v hv hgone => ?_, fun m va hva hgone => ?_⟩
    · exact absurd (hp.symm.trans hgone) (by simp)
    · exact absurd (hv.symm.trans hgone) (by simp)
    · rcases (exec_relisted hs.ledgered.wellFormed hexec).asset hva with
        ⟨va', hva', -⟩ | ⟨-, hidle, hdeployed, hpending, -⟩
      · exact absurd (hva'.symm.trans hgone) (by simp)
      · exact ⟨hidle, hdeployed, hpending⟩
  | venue i =>
    refine ⟨fun key p hp hgone => ?_,
      fun k v hv hgone => hcounted k v hv (execVenue_removes h hv hgone), fun m va hva hgone => ?_⟩
    · obtain ⟨hzero, hempty, -⟩ := execVenue_closes hs.valid.coherent h hp hgone
      exact ⟨hzero, hempty⟩
    have hassets := congrFun (congrArg Terms.assets (execVenue_kept hs.valid.coherent h).terms) m
    simp [VaultState.terms, hva, hgone] at hassets
  | policy i =>
    obtain ⟨policies, pending, rfl⟩ := execPolicy_still h
    refine ⟨fun key p hp hgone => ?_, fun k v hv hgone => ?_, fun m va hva hgone => ?_⟩
    · exact absurd (hp.symm.trans hgone) (by simp)
    · exact absurd (hv.symm.trans hgone) (by simp)
    · exact absurd (hva.symm.trans hgone) (by simp)
  | manageVault => exact hb.elim

/-! ### Runs -/

theorem ManagedState.Created.inOrder (h : s.Created) : s.InOrder where
  toCustodial := h.custodial
  deployed m _ := by
    obtain ⟨w, ctx, args, hcreate⟩ := h.core
    obtain ⟨-, -, -, hassets, -⟩ := createVault_state hcreate
    rw [holdings_of_none (congrFun hassets m)]
    simp [ManagedState.recorded, h.positions]
  covered key p hp := by
    rw [h.positions] at hp
    cases hp
  counted k := by
    simp [ManagedState.positionCount, ManagedState.openPositions, h.vaultVenues, h.positions]

/-- The state after an action was submitted: the transaction of one that fails is rolled back. -/
def ManagedState.submit (verify : MerkleCheck) (s : ManagedState) (b : ManagedAction) :
    ManagedState :=
  match execManaged verify s b with
  | .ok s' => s'
  | .error _ => s

theorem ManagedState.InOrder.submit (hs : s.InOrder) {b : ManagedAction} (hb : b.Unmanaged) :
    (s.submit verify b).InOrder := by
  unfold ManagedState.submit
  split
  · next s' h => exact hs.execManaged hb h
  · exact hs

/-- Whatever is submitted, managed calls apart, the ledger stays in order. -/
theorem ManagedState.InOrder.submitAll {bs : List ManagedAction} (hs : s.InOrder)
    (hbs : ∀ b ∈ bs, b.Unmanaged) : (bs.foldl (ManagedState.submit verify) s).InOrder := by
  induction bs generalizing s with
  | nil => exact hs
  | cons b bs ih =>
    have hb := hbs b (List.mem_cons_self ..)
    exact ih (hs.submit hb) fun b' hb' => hbs b' (List.mem_cons_of_mem _ hb')

/-- A deployment or a pull. -/
def VenueInstruction.Moves : VenueInstruction → Prop
  | .deployVenuePosition .. | .pullVenuePosition .. => True
  | _ => False

/-- The two balances of an asset together stay what they are. -/
theorem execVenue_moves (hc : s.core.terms.Coherent) {i : VenueInstruction} (hi : i.Moves)
    (h : execVenue s i = .ok s') (m : Pubkey) :
    (s'.core.holdings m).1 + (s'.core.holdings m).2 =
      (s.core.holdings m).1 + (s.core.holdings m).2 := by
  cases i with
  | deployVenuePosition ctx amount =>
    obtain ⟨hidle, hdeployed⟩ := deployVenuePosition_holdings hc h m
    omega
  | pullVenuePosition ctx amount =>
    obtain ⟨hidle, hdeployed⟩ := pullVenuePosition_holdings hc h m
    omega
  | _ => exact hi.elim

/-- **The ledger of positions.**  It is in order when a vault is created, and from any state in
which it is, it stays so whatever is submitted, managed calls apart.  Nothing is closed that is
not empty; a deployment or a pull moves between the two balances of its asset, or, failing,
changes nothing. -/
theorem position_ledger (verify : MerkleCheck) :
    (∀ s : ManagedState, s.Created → s.InOrder) ∧
      ∀ s : ManagedState, s.InOrder →
        (∀ bs : List ManagedAction, (∀ b ∈ bs, b.Unmanaged) →
          (bs.foldl (ManagedState.submit verify) s).InOrder) ∧
        (∀ b : ManagedAction, b.Unmanaged → s.ClosesEmpty (s.submit verify b)) ∧
        ∀ i : VenueInstruction, i.Moves →
          (∀ m, ((s.submit verify (.venue i)).core.holdings m).1 +
              ((s.submit verify (.venue i)).core.holdings m).2 =
            (s.core.holdings m).1 + (s.core.holdings m).2) ∧
          ∀ e, execVenue s i = .error e → s.submit verify (.venue i) = s := by
  refine ⟨fun s h => h.inOrder, fun s hs => ⟨fun bs hbs => hs.submitAll hbs, fun b hb => ?_,
    fun i hi => ⟨fun m => ?_, fun e he => ?_⟩⟩⟩
  · unfold ManagedState.submit
    split
    · next s' h => exact hs.closesEmpty hb h
    · refine ⟨fun key p hp hgone => ?_, fun k v hv hgone => ?_, fun m va hva hgone => ?_⟩
      · exact absurd (hp.symm.trans hgone) (by simp)
      · exact absurd (hv.symm.trans hgone) (by simp)
      · exact absurd (hva.symm.trans hgone) (by simp)
  · unfold ManagedState.submit
    split
    · next s' h => exact execVenue_moves hs.valid.coherent hi h m
    · rfl
  · simp only [ManagedState.submit, AsyncVault.execManaged, he]

/-! ### At work -/

/-- The state with another idle balance. -/
def ManagedState.stock (s : ManagedState) (m : Pubkey) (va : VaultAsset) (idle : ℕ) :
    ManagedState :=
  { s with core := { s.core with
    vaultAssets := update s.core.vaultAssets m (some { va with idleBalance := idle }) } }

/-- The order does not depend on what is idle. -/
theorem ManagedState.InOrder.stock (hs : s.InOrder) {va : VaultAsset}
    (hva : s.core.vaultAssets m = some va) (idle : ℕ) : (s.stock m va idle).InOrder := by
  have hterms : (s.stock m va idle).core.terms = s.core.terms := by
    simp only [ManagedState.stock, VaultState.terms, Terms.mk.injEq, true_and]
    funext m'
    by_cases hm : m' = m
    · subst hm
      simp [hva, VaultAsset.terms]
    · simp [hm]
  have hreserved : ∀ m', (s.stock m va idle).core.reserved m' = s.core.reserved m' := by
    intro m'
    simp only [ManagedState.stock, VaultState.reserved]
    by_cases hm : m' = m
    · subst hm
      simp [hva]
    · simp [hm]
  -- idle balances are no terms, and nothing is reserved in them
  have hmoved : Moved s.core (s.stock m va idle).core :=
    ⟨⟨⟨⟨rfl, hreserved⟩, hterms, rfl⟩, rfl, rfl, rfl, rfl⟩, rfl, fun _ _ _ h => h,
      fun _ _ _ => le_rfl⟩
  refine ⟨hs.toCustodial.of_shape hmoved (.refl _) rfl, fun m' hm' => ?_, hs.covered, hs.counted⟩
  have hholdings := holdings_update _ (s.stock m va idle).core rfl m'
  have hold := hs.deployed m' hm'
  by_cases hm : m' = m
  · subst hm
    rw [hholdings, if_pos rfl]
    rwa [holdings_of_some hva] at hold
  · rw [hholdings, if_neg hm]
    exact hold

namespace Scenario

/-- A position in the second asset. -/
def secondPosition : VenuePosition :=
  { position with
    assetMint := secondAsset
    vaultAsset := some secondAsset
    vaultTokenAccount := address 25
    positionTokenAccount := address 28 }

def openSecondPosition : List ManagedAction :=
  (queueAndSecondAsset ++
    [start, .world (.mintTo issuer .token secondAsset (address 25) 50)]).map .core ++
    openVenue ++ [.venue (.createVenuePosition secondPosition)]

end Scenario

open Scenario in
/-- **Non-vacuity.**  Fifty idle units of a second asset, of which thirty are deployed: they are
then on record in the position, and the order is as before. -/
theorem position_ledger_of_second_asset :
    ∃ s : ManagedState, s.InOrder ∧ s.core.holdings secondAsset = (50, 0) ∧
      (s.submit noCalls (.venue (.deployVenuePosition secondPosition 30))).InOrder ∧
      (s.submit noCalls (.venue (.deployVenuePosition secondPosition 30))).core.holdings
        secondAsset = (20, 30) ∧
      (s.submit noCalls (.venue (.deployVenuePosition secondPosition 30))).recorded
        secondAsset = 30 := by
  obtain ⟨s₀, tr, s, hcreated, hrun, hacts, hp⟩ := exists_managed_run openSecondPosition
    (fun tr s => (tr.all fun x => decide x.act.Unmanaged) &&
      (s.core.vaultAssets secondAsset).any fun va =>
        decide (((s.stock secondAsset va 50).submit noCalls
          (.venue (.deployVenuePosition secondPosition 30))).core.holdings secondAsset =
            (20, 30)) &&
        decide (secondAsset ≠ ((s.stock secondAsset va 50).submit noCalls
          (.venue (.deployVenuePosition secondPosition 30))).core.vault.assetMint) &&
        decide (va.deployedBalance = 0))
    (by decide +kernel)
  -- what the evaluation of the script checked
  simp only [Bool.and_eq_true, List.all_eq_true, Option.any_eq_true, decide_eq_true_eq] at hp
  obtain ⟨hunmanaged, va, hva, ⟨hmoved, hother⟩, hnone⟩ := hp
  have hs : s.InOrder := Run.invariant_of_forall (Q := fun x => x.act.Unmanaged)
    (fun _ _ _ hs hu he => hs.execManaged hu he) hrun hunmanaged hcreated.inOrder
  have hstocked := hs.stock hva 50
  -- the theorem, at the one action that deploys
  have horder : ((s.stock secondAsset va 50).submit noCalls
      (.venue (.deployVenuePosition secondPosition 30))).InOrder :=
    ((position_ledger noCalls).2 _ hstocked).1
      [.venue (.deployVenuePosition secondPosition 30)]
      (fun b hb => by rw [List.mem_singleton.mp hb]; trivial)
  refine ⟨_, hstocked, ?_, horder, hmoved, ?_⟩
  · rw [holdings_update _ _ rfl, if_pos rfl]
    simp [VaultAsset.holdings, hnone]
  · rw [horder.deployed secondAsset hother, hmoved]

end AsyncVault
