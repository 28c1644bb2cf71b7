/-
AsyncVault/Removal.lean

Removing positions and assets.

A position or an asset goes when its ledgers are at zero and its token accounts
are empty, and then the curator can always remove it (`leads_to_removal`).  The
token accounts count with whatever is in them.  Anyone can send tokens there, and
nobody can send them back: a deployment and a pull move what the position
records (`Dusty`), the reserve of another asset is never spent, and an escrow is
left for what it owes (`Surplus`).  So a transfer nobody asked for blocks the
removal, and blocks it for good.

The fees withheld from such a transfer block it as well, but no instruction of
the program brings them to the mint; a harvest by a third party does
(`Clearable`).
-/
import AsyncVault.Authorization
import AsyncVault.SecondaryAssets

namespace AsyncVault

open Checked TokenLedger KeyedStore OrderBook Function Machine

variable {c c' : VaultState} {s s' s₀ : ManagedState} {k m a : Pubkey} {n : ℕ}
variable {verify : MerkleCheck} {tr : List (Transition ManagedState ManagedAction)}

/-! ### Tokens of positions -/

/-- The account of a position has `n` tokens that the position does not record. -/
def ManagedState.Dusty (s : ManagedState) (key : VenueEntryKey × Pubkey) (n : ℕ) : Prop :=
  ∃ p, s.positions.lookup key = some p ∧ p.amount + n ≤ s.core.token.balance p.tokenAccount

theorem ManagedState.InOrder.dusty (hs : s.InOrder) {key : VenueEntryKey × Pubkey}
    (hd : s.Dusty key n) (hn : 0 < n) {b : ManagedAction} (hb : b.Unmanaged)
    (h : AsyncVault.execManaged verify s b = .ok s') : s'.Dusty key n := by
  obtain ⟨p, hp, hle⟩ := hd
  obtain ⟨hheld, hunused⟩ := hs.account hp
  cases b with
  | core b =>
    simp only [AsyncVault.execManaged, bind_eq_ok, pure_eq_ok] at h
    obtain ⟨c, hc, rfl⟩ := h
    -- nothing in the core spends from the account of a position
    have hkept := exec_unspent hs.ledgered.wellFormed (fun he => hunused (.inl he))
      (fun m' hm' => hunused (Terms.uses_pendingVault hm')) hheld hc
    exact ⟨p, hp, hle.trans hkept⟩
  | venue i =>
    cases hp' : s'.positions.lookup key with
    | none =>
      -- a position that goes was empty
      have hempty := (execVenue_closes hs.valid.coherent h hp hp').2.1
      omega
    | some p' =>
      rcases hs.execVenue_surplus h hp' with ⟨hnone, -⟩ | ⟨p₀, hp₀, haccount, hsurplus⟩
      · exact absurd (hp.symm.trans hnone) (by simp)
      · obtain rfl := Option.some.inj (hp.symm.trans hp₀)
        refine ⟨p', hp', ?_⟩
        rw [haccount]
        omega
  | policy i =>
    obtain ⟨policies, pending, rfl⟩ := execPolicy_still h
    exact ⟨p, hp, hle⟩
  | manageVault => exact hb.elim

/-! ### Reserves of other assets -/

/-- A venue instruction spends nothing from the reserve of another asset. -/
theorem ManagedState.InOrder.execVenue_reserve (hs : s.InOrder) (hc : s.FailsClosed)
    {va : VaultAsset} (hva : s.core.vaultAssets m = some va) {i : VenueInstruction}
    (h : execVenue s i = .ok s') :
    s.core.token.balance va.reserve ≤ s'.core.token.balance va.reserve := by
  have hasset : s.core.terms.assets m = some va.terms := by simp [VaultState.terms, hva]
  have hvalid := hs.valid.assets m _ hasset
  have hheld : s.core.token.Holds va.reserve m s.core.key := hvalid.reserve.holds
  have hm : s.core.vault.assetMint ≠ m := hvalid.ne_primary
  -- the account of a position is none that the vault uses otherwise
  have hused : s.core.terms.Uses va.reserve := .inr (.inr ⟨m, _, hasset, .inl rfl⟩)
  cases execVenue_effect hs.valid.coherent h with
  | still recorded token positions => rw [token]
  | opened fresh token asset empty positions =>
    exact ((initializeAccount_untouched token s.core.key).balance _ _ hheld).ge
  | @deployed ctx amount p reserve program found asset source token balance positions =>
    by_cases hr : va.reserve = reserve
    · -- nothing of another asset can be deployed
      have hmint : m = ctx.assetMint := (hheld.unique (hr ▸ token.src_holds)).1
      have hzero : amount = 0 := hc.deploy hs (hmint ▸ hm.symm) h
      rw [hr]
      omega
    · exact token.spent.balance_of_ne _ hr
  | @pulled ctx amount rest p reserve program found asset target token balance left positions =>
    refine token.spent.balance_of_ne _ ?_
    intro he
    exact (hs.account found).2 (he ▸ hused)
  | @closed ctx p found empty token positions =>
    obtain ⟨-, -, -, htoken⟩ := closeAccount_ok token
    have hne : va.reserve ≠ p.tokenAccount := by
      intro he
      exact (hs.account found).2 (he ▸ hused)
    refine le_of_eq ?_
    simp only [Ledger.balance, htoken, update_of_ne hne]
  -- withdrawals are of the primary asset
  | withdrew venue held token positions =>
    refine token.spent.balance_of_ne _ ?_
    intro he
    exact hm (hs.valid.reserve.holds.unique (he ▸ hheld)).1

/-- The reserve of the asset `m` has tokens. -/
def ManagedState.Stranded (s : ManagedState) (m : Pubkey) : Prop :=
  ∃ va, s.core.vaultAssets m = some va ∧ 0 < s.core.token.balance va.reserve

theorem ManagedState.InOrder.stranded (hs : s.InOrder) (hc : s.FailsClosed) (hd : s.Stranded m)
    {b : ManagedAction} (hb : b.Unmanaged) (h : AsyncVault.execManaged verify s b = .ok s') :
    s'.Stranded m := by
  obtain ⟨va, hva, hpos⟩ := hd
  have hasset : s.core.terms.assets m = some va.terms := by simp [VaultState.terms, hva]
  have hvalid := hs.valid.assets m _ hasset
  cases b with
  | core b =>
    simp only [AsyncVault.execManaged, bind_eq_ok, pure_eq_ok] at h
    obtain ⟨c, hexec, rfl⟩ := h
    have hheld : s.core.token.Holds va.reserve m s.core.key := hvalid.reserve.holds
    -- the reserve is no account the core spends from
    have hreserve : va.reserve ≠ s.core.vault.vaultTokenAccount := by
      intro he
      exact hvalid.ne_primary (hs.valid.reserve.holds.unique (he ▸ hheld)).1
    have hnot : ∀ m', s.core.terms.pendingVaultOf m' ≠ some va.reserve := by
      refine fun m' => hs.valid.reserveOf_not_escrow hs.apart (m := m) ?_ m'
      simp [Terms.reserveOf, hvalid.ne_primary, hasset, VaultAsset.terms]
    have hkept := exec_unspent hs.ledgered.wellFormed hreserve hnot hvalid.reserve hexec
    -- an asset that is removed has an empty reserve
    rcases (exec_relisted hs.ledgered.wellFormed hexec).asset hva with
      ⟨va', hva', hterms⟩ | ⟨-, -, -, -, hempty, -⟩
    · refine ⟨va', hva', hpos.trans_le ?_⟩
      rw [show va'.reserve = va.reserve from congrArg AssetTerms.reserve hterms]
      exact hkept
    · omega
  | venue i =>
    have hkept := hs.execVenue_reserve hc hva h
    have hterms := congrFun (congrArg Terms.assets (execVenue_kept hs.valid.coherent h).terms) m
    simp only [VaultState.terms, hva, Option.map_some, Option.map_eq_some_iff] at hterms
    obtain ⟨va', hva', hterms⟩ := hterms
    refine ⟨va', hva', hpos.trans_le ?_⟩
    rw [show va'.reserve = va.reserve from congrArg AssetTerms.reserve hterms]
    exact hkept
  | policy i =>
    obtain ⟨policies, pending, rfl⟩ := execPolicy_still h
    exact ⟨va, hva, hpos⟩
  | manageVault => exact hb.elim

/-! ### Escrows -/

/-- The escrow of `m` has `n` tokens over what it owes. -/
def VaultState.Surplus (c : VaultState) (m : Pubkey) (n : ℕ) : Prop :=
  c.book.reserved m + c.book.claimableRedeems m + n ≤ c.book.escrow m

theorem Refines.surplus {e : Event Pubkey} (h : Refines c e c') (hl : Ledgered c)
    (hs : c.Surplus m n) : c'.Surplus m n :=
  (h.step.surplus (hl.escrowedAt m).reserved hs).2

theorem ManagedState.InOrder.surplus (hs : s.InOrder) (hd : s.core.Surplus m n)
    {b : ManagedAction} (hb : b.Unmanaged) (h : AsyncVault.execManaged verify s b = .ok s') :
    s'.core.Surplus m n := by
  have hw := hs.ledgered.wellFormed
  cases b with
  | core b =>
    simp only [AsyncVault.execManaged, bind_eq_ok, pure_eq_ok] at h
    obtain ⟨c, hc, rfl⟩ := h
    exact (exec_refines hw hc).surplus hs.ledgered hd
  | venue i =>
    exact ((execVenue_moved hs.toCustodial h).refines hw).surplus hs.ledgered hd
  | policy i =>
    obtain ⟨policies, pending, rfl⟩ := execPolicy_still h
    exact hd
  | manageVault => exact hb.elim

/-! ### Withheld fees -/

/-- A third party has the fees withheld in the account at `a` brought to its mint. -/
def harvest (k a : Pubkey) : ManagedAction := .core (.world (.applySetting k (.harvestWithheld a)))

/-- No instruction takes the withheld fees out of an account but a harvest of it. -/
theorem execManaged_withheld_le {b : ManagedAction} (hb : b.Unmanaged)
    (hne : ∀ k, k ≠ s.core.key → b ≠ harvest k a) (h : execManaged verify s b = .ok s') :
    s.core.token.withheld a ≤ s'.core.token.withheld a := by
  cases b with
  | core b =>
    simp only [execManaged, bind_eq_ok, pure_eq_ok] at h
    obtain ⟨c, hc, rfl⟩ := h
    by_cases hset : b.Sets
    · obtain ⟨authority, i, rfl⟩ : ∃ authority i, b = .world (.applySetting authority i) := by
        cases b <;> try exact hset.elim
        case world w =>
        cases w <;> try exact hset.elim
        exact ⟨_, _, rfl⟩
      simp only [exec, execWorld, worldToken, bind_eq_ok, VaultState.signer_eq_ok, cpi_eq_ok,
        pure_eq_ok] at hc
      obtain ⟨token, ⟨-, hk, htoken⟩, clock, -, rfl⟩ := hc
      refine applySetting_withheld_le htoken ?_
      rintro rfl
      exact hne authority hk rfl
    · exact (exec_calls hset hc).withheld_le a
  | venue i => exact (execVenue_calls h).withheld_le a
  | policy i => rw [execPolicy_core h]
  | manageVault => exact hb.elim

/-- Fees are withheld in the account of the position. -/
def ManagedState.Charged (s : ManagedState) (key : VenueEntryKey × Pubkey) (a : Pubkey) : Prop :=
  ∃ p, s.positions.lookup key = some p ∧ p.tokenAccount = a ∧ 0 < s.core.token.withheld a

theorem ManagedState.InOrder.charged (hs : s.InOrder) {key : VenueEntryKey × Pubkey}
    (hd : s.Charged key a) {b : ManagedAction} (hb : b.Unmanaged)
    (hne : ∀ k, k ≠ s.core.key → b ≠ harvest k a)
    (h : AsyncVault.execManaged verify s b = .ok s') : s'.Charged key a := by
  obtain ⟨p, hp, haccount, hpos⟩ := hd
  have hkept := hpos.trans_le (execManaged_withheld_le hb hne h)
  cases b with
  | core b =>
    simp only [AsyncVault.execManaged, bind_eq_ok, pure_eq_ok] at h
    obtain ⟨c, hc, rfl⟩ := h
    exact ⟨p, hp, haccount, hkept⟩
  | venue i =>
    cases hp' : s'.positions.lookup key with
    | none =>
      have hsettled := (execVenue_closes hs.valid.coherent h hp hp').2.2
      rw [haccount] at hsettled
      omega
    | some p' =>
      rcases hs.execVenue_surplus h hp' with ⟨hnone, -⟩ | ⟨p₀, hp₀, haccount', -⟩
      · exact absurd (hp.symm.trans hnone) (by simp)
      · obtain rfl := Option.some.inj (hp.symm.trans hp₀)
        exact ⟨p', hp', haccount'.trans haccount, hkept⟩
  | policy i =>
    obtain ⟨policies, pending, rfl⟩ := execPolicy_still h
    exact ⟨p, hp, haccount, hkept⟩
  | manageVault => exact hb.elim

/-- Fees are withheld in an account of the asset `m`. -/
def ManagedState.ChargedAsset (s : ManagedState) (m a : Pubkey) : Prop :=
  ∃ va, s.core.vaultAssets m = some va ∧ (va.reserve = a ∨ va.pendingVault = a) ∧
    0 < s.core.token.withheld a

theorem ManagedState.InOrder.chargedAsset (hs : s.InOrder) (hd : s.ChargedAsset m a)
    {b : ManagedAction} (hb : b.Unmanaged) (hne : ∀ k, k ≠ s.core.key → b ≠ harvest k a)
    (h : AsyncVault.execManaged verify s b = .ok s') : s'.ChargedAsset m a := by
  obtain ⟨va, hva, haccount, hpos⟩ := hd
  -- fees leave an account by a harvest of it only
  have hkept := hpos.trans_le (execManaged_withheld_le hb hne h)
  have hsame : ∀ va' : VaultAsset, va'.terms = va.terms →
      va'.reserve = a ∨ va'.pendingVault = a := by
    intro va' hterms
    have hreserve : va'.reserve = va.reserve := congrArg AssetTerms.reserve hterms
    have hescrow : va'.pendingVault = va.pendingVault := congrArg AssetTerms.pendingVault hterms
    rwa [hreserve, hescrow]
  cases b with
  | core b =>
    simp only [AsyncVault.execManaged, bind_eq_ok, pure_eq_ok] at h
    obtain ⟨c, hexec, rfl⟩ := h
    rcases (exec_relisted hs.ledgered.wellFormed hexec).asset hva with
      ⟨va', hva', hterms⟩ | ⟨-, -, -, -, -, -, hreserve, hescrow⟩
    · exact ⟨va', hva', hsame va' hterms, hkept⟩
    -- a removal found nothing withheld
    · rcases haccount with rfl | rfl
      · omega
      · omega
  | venue i =>
    have hterms := congrFun (congrArg Terms.assets (execVenue_kept hs.valid.coherent h).terms) m
    simp only [VaultState.terms, hva, Option.map_some, Option.map_eq_some_iff] at hterms
    obtain ⟨va', hva', hterms⟩ := hterms
    exact ⟨va', hva', hsame va' hterms, hkept⟩
  | policy i =>
    obtain ⟨policies, pending, rfl⟩ := execPolicy_still h
    exact ⟨va, hva, haccount, hkept⟩
  | manageVault => exact hb.elim

/-! ### Accounts in their places -/

/-- Approvals and positions name the vault and the entry they are for, their entries and mints
exist, and the vault counts its assets, the primary one included. -/
structure ManagedState.Enrolled (s : ManagedState) : Prop where
  venues : ∀ k v, s.vaultVenues k = some v →
    v.vault = s.core.key ∧ v.venueEntry = k ∧ (s.venueEntries k).isSome
  positions : ∀ key p, s.positions.lookup key = some p →
    p.vault = s.core.key ∧ p.venueEntry = key.1 ∧ p.assetMint = key.2 ∧
      (s.core.token.mints key.2).isSome
  assets : ∃ listed : Finset Pubkey, (∀ m, m ∈ listed ↔ (s.core.terms.assets m).isSome) ∧
    listed.card + 1 = s.core.vault.approvedAssetCount

theorem Relisted.counted (h : Relisted c c') {listed : Finset Pubkey}
    (hlisted : ∀ m, m ∈ listed ↔ (c.terms.assets m).isSome)
    (hcard : listed.card + 1 = c.vault.approvedAssetCount) :
    ∃ listed : Finset Pubkey, (∀ m, m ∈ listed ↔ (c'.terms.assets m).isSome) ∧
      listed.card + 1 = c'.vault.approvedAssetCount := by
  cases h with
  | kept assets count =>
    refine ⟨listed, fun m => ?_, hcard.trans count.symm⟩
    rw [assets]
    exact hlisted m
  | @listed ctx depositCap token₁ token hl =>
    -- a listed asset is new to the set
    have hnew : ctx.assetMint ∉ listed := by
      rw [hlisted]
      simp [VaultState.terms, hl.free]
    obtain rfl := hl.state
    refine ⟨insert ctx.assetMint listed, fun m => ?_, ?_⟩
    · rw [Finset.mem_insert, hlisted]
      by_cases hm : m = ctx.assetMint
      · subst hm
        simp [VaultState.terms, VaultState.setAsset]
      · simp [VaultState.terms, VaultState.setAsset, hm]
    · rw [Finset.card_insert_of_notMem hnew, hcard]
      rfl
  | @removed asset va token₁ token count hremoved =>
    -- a removed one was in it
    have hold : asset ∈ listed := by
      rw [hlisted]
      simp [VaultState.terms, hremoved.found]
    have hcounted := hremoved.counted
    obtain rfl := hremoved.state
    refine ⟨listed.erase asset, fun m => ?_, ?_⟩
    · rw [Finset.mem_erase, hlisted]
      by_cases hm : m = asset
      · subst hm
        simp [VaultState.terms, VaultState.setAsset]
      · simp [VaultState.terms, VaultState.setAsset, hm]
    · have herased := Finset.card_erase_add_one hold
      show (listed.erase asset).card + 1 = count
      omega

/-- An approval is new, of an entry that exists, or an old one with another count. -/
theorem execVenue_venues {i : VenueInstruction} (h : execVenue s i = .ok s') :
    (∀ k, (s.venueEntries k).isSome → (s'.venueEntries k).isSome) ∧
      ∀ k v', s'.vaultVenues k = some v' →
        (∃ v, s.vaultVenues k = some v ∧ v'.vault = v.vault ∧ v'.venueEntry = v.venueEntry) ∨
          v'.vault = s.core.key ∧ v'.venueEntry = k ∧ (s.venueEntries k).isSome := by
  -- entries are added and never removed
  have hentries : ∀ (k : VenueEntryKey) (e : VenueEntry) k', (s.venueEntries k').isSome →
      (update s.venueEntries k (some e) k').isSome := by
    intro k e k' hk
    rw [update_apply]
    split
    · rfl
    · exact hk
  -- an approval that is counted anew stays of its venue
  have hrecount : ∀ (k : VenueEntryKey) (v : VaultVenue) (n : ℕ), s.vaultVenues k = some v →
      ∀ k' v', update s.vaultVenues k (some { v with positionCount := n }) k' = some v' →
      ∃ v, s.vaultVenues k' = some v ∧ v'.vault = v.vault ∧ v'.venueEntry = v.venueEntry := by
    intro k v n hv k' v' hv'
    rw [update_apply] at hv'
    split at hv'
    · next hk =>
      obtain rfl := Option.some.inj hv'
      exact ⟨v, hk ▸ hv, rfl, rfl⟩
    · exact ⟨v', hv', rfl, rfl⟩
  cases i with
  | registerVenue registryAuthority args =>
    obtain ⟨-, -, -, rfl⟩ := registerVenue_iff.1 h
    exact ⟨hentries _ _, fun k v' hv' => .inl ⟨v', hv', rfl, rfl⟩⟩
  | setVenueEntryPaused registryAuthority entry paused =>
    obtain ⟨-, e, -, -, rfl⟩ := setVenueEntryPaused_iff.1 h
    exact ⟨hentries _ _, fun k v' hv' => .inl ⟨v', hv', rfl, rfl⟩⟩
  | approveVaultVenue authority entry recipientAuthority =>
    obtain ⟨e, h⟩ := approveVaultVenue_iff.1 h
    have he := h.entry
    obtain rfl := h.state
    refine ⟨fun k hk => hk, fun k v' hv' => ?_⟩
    simp only [update_apply] at hv'
    split at hv'
    · next hk =>
      subst hk
      obtain rfl := Option.some.inj hv'
      exact .inr ⟨rfl, rfl, by rw [he]; rfl⟩
    · exact .inl ⟨v', hv', rfl, rfl⟩
  | removeVaultVenue authority entry =>
    obtain ⟨v, h⟩ := removeVaultVenue_iff.1 h
    obtain rfl := h.state
    refine ⟨fun k hk => hk, fun k v' hv' => ?_⟩
    simp only [update_apply] at hv'
    split at hv'
    · cases hv'
    · exact .inl ⟨v', hv', rfl, rfl⟩
  | createVenuePosition ctx =>
    obtain ⟨e, v, token, h⟩ := createVenuePosition_iff.1 h
    obtain rfl := h.state
    exact ⟨fun k hk => hk, fun k v' hv' => .inl (hrecount _ v _ (vaultVenue_ok h.venue) k v' hv')⟩
  | deployVenuePosition ctx amount =>
    obtain ⟨p, core, ledger, token, n, h⟩ := deployVenuePosition_iff.1 h
    obtain rfl := h.state
    exact ⟨fun k hk => hk, fun k v' hv' => .inl ⟨v', hv', rfl, rfl⟩⟩
  | pullVenuePosition ctx amount =>
    obtain ⟨p, core, ledger, token, n, h⟩ := pullVenuePosition_iff.1 h
    obtain rfl := h.state
    exact ⟨fun k hk => hk, fun k v' hv' => .inl ⟨v', hv', rfl, rfl⟩⟩
  | removeVenuePosition ctx =>
    obtain ⟨p, asset, v, token, h⟩ := removeVenuePosition_iff.1 h
    obtain rfl := h.state
    exact ⟨fun k hk => hk, fun k v' hv' => .inl (hrecount _ v _ (vaultVenue_ok h.venue) k v' hv')⟩
  | withdrawAssets ctx amount =>
    obtain ⟨asset, e, v, w, token, h⟩ := withdrawAssets_iff.1 h
    obtain rfl := h.state
    exact ⟨fun k hk => hk, fun k v' hv' => .inl ⟨v', hv', rfl, rfl⟩⟩

/-- A position is new, of a mint that exists, or an old one with another amount. -/
theorem execVenue_positions (hc : s.core.terms.Coherent) {i : VenueInstruction}
    (h : execVenue s i = .ok s') {key : VenueEntryKey × Pubkey} {p' : Position}
    (hp' : s'.positions.lookup key = some p') :
    (∃ p, s.positions.lookup key = some p ∧ p'.vault = p.vault ∧ p'.venueEntry = p.venueEntry ∧
        p'.assetMint = p.assetMint) ∨
      p'.vault = s.core.key ∧ p'.venueEntry = key.1 ∧ p'.assetMint = key.2 ∧
        (s.core.token.mints key.2).isSome := by
  -- a position that is written anew stays of its venue and asset
  have hrecord : ∀ (key₀ : VenueEntryKey × Pubkey) (p : Position) (n : ℕ),
      s.positions.lookup key₀ = some p →
      s'.positions = s.positions.insert key₀ { p with amount := n } →
      ∃ p, s.positions.lookup key = some p ∧ p'.vault = p.vault ∧
        p'.venueEntry = p.venueEntry ∧ p'.assetMint = p.assetMint := by
    intro key₀ p n hp he
    rw [he] at hp'
    by_cases hk : key = key₀
    · subst hk
      obtain rfl := Option.some.inj ((AList.lookup_insert _).symm.trans hp')
      exact ⟨p, hp, rfl, rfl, rfl⟩
    · rw [AList.lookup_insert_ne hk] at hp'
      exact ⟨p', hp', rfl, rfl, rfl⟩
  cases execVenue_effect hc h with
  | still recorded token positions => exact .inl ⟨p', positions ▸ hp', rfl, rfl, rfl⟩
  | @opened ctx p₀ program fresh token asset empty positions =>
    obtain ⟨e, v, token, h⟩ := createVenuePosition_iff.1 h
    -- it was opened for a mint that exists
    have hmint := h.mint
    obtain rfl := h.state
    by_cases hk : key = (ctx.venueEntry, ctx.assetMint)
    · subst hk
      obtain rfl := Option.some.inj ((AList.lookup_insert _).symm.trans hp')
      exact .inr ⟨rfl, rfl, rfl, hmint⟩
    · rw [AList.lookup_insert_ne hk] at hp'
      exact .inl ⟨p', hp', rfl, rfl, rfl⟩
  | deployed found asset source token balance positions =>
    exact .inl (hrecord _ _ _ found positions)
  | pulled found asset target token balance left positions =>
    exact .inl (hrecord _ _ _ found positions)
  | @closed ctx p₀ found empty token positions =>
    rw [positions] at hp'
    have hk : key ≠ (ctx.venueEntry, ctx.assetMint) := by
      rintro rfl
      rw [AList.lookup_erase] at hp'
      cases hp'
    rw [AList.lookup_erase_ne hk] at hp'
    exact .inl ⟨p', hp', rfl, rfl, rfl⟩
  | withdrew venue held token positions => exact .inl ⟨p', positions ▸ hp', rfl, rfl, rfl⟩

theorem ManagedState.Enrolled.execManaged (hs : s.InOrder) (he : s.Enrolled) {b : ManagedAction}
    (hb : b.Unmanaged) (h : AsyncVault.execManaged verify s b = .ok s') : s'.Enrolled := by
  have hlasts : ∀ {t' : Ledger Pubkey}, Lasting s.core.token t' →
      ∀ {x}, (s.core.token.mints x).isSome → (t'.mints x).isSome := by
    intro t' hl x hx
    obtain ⟨y, hy⟩ := Option.isSome_iff_exists.1 hx
    obtain ⟨y', hy', -⟩ := hl x y hy
    rw [hy']
    rfl
  obtain ⟨listed, hlisted, hcard⟩ := he.assets
  cases b with
  | core b =>
    simp only [AsyncVault.execManaged, bind_eq_ok, pure_eq_ok] at h
    obtain ⟨c, hc, rfl⟩ := h
    have hspared := exec_spared hs.ledgered.wellFormed hc
    refine ⟨fun k v hv => ?_, fun key p hp => ?_,
      (exec_relisted hs.ledgered.wellFormed hc).counted hlisted hcard⟩
    · show v.vault = c.key ∧ _
      rw [hspared.key]
      exact he.venues k v hv
    · obtain ⟨hvault, hentry, hasset, hmint⟩ := he.positions key p hp
      exact ⟨hvault.trans hspared.key.symm, hentry, hasset, hlasts hspared.lasting hmint⟩
  | venue i =>
    have hcoherent := hs.valid.coherent
    have hterms := (execVenue_kept hcoherent h).terms
    have hkey : s'.core.key = s.core.key := congrArg Terms.key hterms
    have hmints := (execVenue_moved hs.toCustodial h).mints
    obtain ⟨hentries, hvenues⟩ := execVenue_venues h
    refine ⟨fun k v hv => ?_, fun key p hp => ?_, listed, fun m => ?_, ?_⟩
    · rcases hvenues k v hv with ⟨v₀, hv₀, hvault, hentry⟩ | ⟨hvault, hentry, hsome⟩
      · obtain ⟨hvault₀, hentry₀, hsome⟩ := he.venues k v₀ hv₀
        exact ⟨by rw [hvault, hvault₀, hkey], hentry.trans hentry₀, hentries k hsome⟩
      · exact ⟨hvault.trans hkey.symm, hentry, hentries k hsome⟩
    · rw [hkey, hmints]
      rcases execVenue_positions hcoherent h hp with ⟨p₀, hp₀, hvault, hentry, hasset⟩ | hnew
      · obtain ⟨hvault₀, hentry₀, hasset₀, hmint⟩ := he.positions key p₀ hp₀
        exact ⟨hvault.trans hvault₀, hentry.trans hentry₀, hasset.trans hasset₀, hmint⟩
      · exact hnew
    · rw [hterms]
      exact hlisted m
    · have hsettings := (execVenue_idle h).1.settings
      have hcount : s'.core.vault.settings.approvedAssetCount =
          s.core.vault.settings.approvedAssetCount := by rw [hsettings]
      exact hcard.trans hcount.symm
  | policy i =>
    obtain ⟨policies, pending, rfl⟩ := execPolicy_still h
    exact ⟨he.venues, he.positions, he.assets⟩
  | manageVault => exact hb.elim

theorem ManagedState.Created.enrolled (h : s.Created) : s.Enrolled := by
  refine ⟨fun k v hv => ?_, fun key p hp => ?_, ∅, fun m => ?_, ?_⟩
  · rw [h.vaultVenues] at hv
    cases hv
  · rw [h.positions] at hp
    cases hp
  · obtain ⟨w, ctx, args, hcreate⟩ := h.core
    obtain ⟨-, -, -, hassets, -⟩ := createVault_state hcreate
    simp [VaultState.terms, hassets]
  · obtain ⟨w, ctx, args, hcreate⟩ := h.core
    obtain ⟨_, _, _, token, -, hstate⟩ := createVault_iff.1 hcreate
    rw [hstate]
    rfl

/-! ### Removing -/

/-- The accounts for removing the position at `key`. -/
def ManagedState.removal (s : ManagedState) (key : VenueEntryKey × Pubkey) (p : Position)
    (program : TokenProgram) : VenuePosition where
  authority := s.core.vault.curator
  assetMint := key.2
  vaultAsset := some key.2
  venueEntry := key.1
  vaultTokenAccount := s.core.vault.vaultTokenAccount
  positionTokenAccount := p.tokenAccount
  assetTokenProgram := program

/-- The primary asset and the listed ones are supported. -/
theorem checkSupportedAsset_of_listed (hc : c.terms.Coherent)
    (h : m = c.vault.assetMint ∨ ∃ va, c.vaultAssets m = some va) :
    checkSupportedAsset c m (some m) = .ok () := by
  unfold checkSupportedAsset
  split
  · rfl
  · next hm =>
    rcases h with rfl | ⟨va, hva⟩
    · simp [Vault.isPrimaryAsset] at hm
    · have hasset : c.terms.assets m = some va.terms := by simp [VaultState.terms, hva]
      obtain ⟨hvault, hmint, -⟩ := hc.assets m _ hasset
      have hvault : va.vault = c.key := hvault
      have hmint : va.assetMint = m := hmint
      have hfound : c.secondaryAsset (some m) m = .ok va := by
        simp only [VaultState.secondaryAsset, VaultAsset.assertMatches, bind_eq_ok, okOr_eq_ok,
          ensure_eq_ok, pure_eq_ok]
        exact ⟨m, rfl, va, hva, (), ⟨(), hvault, hmint⟩, rfl⟩
      rw [hfound]
      rfl

theorem removeVenuePosition_isOk (hs : s.InOrder) (he : s.Enrolled)
    (hsigns : s.core.vault.curator ≠ s.core.key) (hfree : s.core.vault.timelockDelaySlots = 0)
    {key : VenueEntryKey × Pubkey} {p : Position} (hp : s.positions.lookup key = some p)
    (hzero : p.amount = 0) (hempty : s.core.token.balance p.tokenAccount = 0)
    (hsettled : s.core.token.withheld p.tokenAccount = 0)
    (hsupported : key.2 = s.core.vault.assetMint ∨ ∃ va, s.core.vaultAssets key.2 = some va) :
    ∃ program s', removeVenuePosition s (s.removal key p program) = .ok s' ∧
      s'.positions.lookup key = none := by
  obtain ⟨hvault, hentry, hasset, hmint⟩ := he.positions key p hp
  obtain ⟨y, hy⟩ := Option.isSome_iff_exists.1 hmint
  obtain ⟨x, hx, hxm, hxo⟩ := (hs.account hp).1.holds
  have hamount : x.amount = 0 := (balance_of_some hx).symm.trans hempty
  have hwithheld : x.withheld = 0 := (withheld_of_some hx).symm.trans hsettled
  -- the venue is there, for it counts the position
  have hcount : 0 < s.positionCount key.1 := by
    rw [hs.counted]
    have hle := le_total (w := Position.counts key.1) hp
    rw [Position.counts, if_pos hentry] at hle
    exact hle
  obtain ⟨v, hv⟩ : ∃ v, s.vaultVenues key.1 = some v := by
    cases hv : s.vaultVenues key.1 with
    | none => simp [ManagedState.positionCount, hv] at hcount
    | some v => exact ⟨v, rfl⟩
  rw [positionCount_of_some hv] at hcount
  obtain ⟨hvvault, hventry, hesome⟩ := he.venues key.1 v hv
  refine ⟨y.program, _, removeVenuePosition_iff.2 ⟨p, y, v, _, {
    signer := hsigns
    mint := hy
    entry := hesome
    venue := ManagedState.vaultVenue_eq_ok.2 ⟨hv, hvvault, hventry⟩
    found := hp
    vault := hvault
    venueEntry := hentry
    assetMint := hasset
    account := ⟨x, hx, hxm, hxo⟩
    tokenAccount := rfl
    program := rfl
    curator := rfl
    untimed := hfree
    supported := checkSupportedAsset_of_listed hs.valid.coherent hsupported
    empty := hzero
    balance := hempty
    counted := hcount
    closed := closeAccount_of_empty hx hamount hwithheld hxo
    state := rfl }⟩, AList.lookup_erase key s.positions⟩

theorem removeVaultAsset_isOk (hs : s.InOrder) (he : s.Enrolled)
    (hsigns : s.core.vault.curator ≠ s.core.key) (hfree : s.core.vault.timelockDelaySlots = 0)
    {va : VaultAsset} (hva : s.core.vaultAssets m = some va) (hidle : va.idleBalance = 0)
    (hdeployed : va.deployedBalance = 0) (hpending : va.pendingDepositAmount = 0)
    (hreserve : s.core.token.balance va.reserve = 0)
    (hescrow : s.core.token.balance va.pendingVault = 0)
    (hreserveSettled : s.core.token.withheld va.reserve = 0)
    (hescrowSettled : s.core.token.withheld va.pendingVault = 0) :
    ∃ c, removeVaultAsset s.core s.core.vault.curator m = .ok c ∧ c.vaultAssets m = none := by
  have hasset : s.core.terms.assets m = some va.terms := by simp [VaultState.terms, hva]
  have hvalid := hs.valid.assets m _ hasset
  obtain ⟨x, hx, hxm, hxo⟩ := hvalid.reserve.holds
  obtain ⟨y, hy, hym, hyo⟩ := hvalid.pendingVault.holds
  have hne : va.pendingVault ≠ va.reserve := (hs.apart m _ hasset).symm
  have hxamount : x.amount = 0 := (balance_of_some hx).symm.trans hreserve
  have hyamount : y.amount = 0 := (balance_of_some hy).symm.trans hescrow
  have hxwithheld : x.withheld = 0 := (withheld_of_some hx).symm.trans hreserveSettled
  have hywithheld : y.withheld = 0 := (withheld_of_some hy).symm.trans hescrowSettled
  obtain ⟨listed, -, hcard⟩ := he.assets
  refine ⟨s.core.setAsset { s.core.token with
      accounts := update (update s.core.token.accounts va.reserve none) va.pendingVault none }
    m none (s.core.vault.approvedAssetCount - 1), ?_, update_self ..⟩
  simp only [removeVaultAsset, VaultAsset.assertMatches, Vault.assertCurator,
    VaultState.tokenAccount_eq_ok, VaultState.signer_eq_ok, bind_eq_ok, okOr_eq_ok, ensure_eq_ok,
    sub_eq_ok, cpi_eq_ok, pure_eq_ok]
  exact ⟨(), hsigns, va, hva, (), ⟨(), hvalid.vault, hvalid.assetMint⟩, x, ⟨hx, hxm, hxo⟩, y,
    ⟨hy, hym, hyo⟩, (), trivial, (), hfree, (),
    ⟨hidle, hdeployed, hpending, hxamount, hyamount⟩, _, ⟨by omega, rfl⟩, _,
    closeAccount_of_empty hx hxamount hxwithheld hxo, _,
    closeAccount_of_empty ((update_of_ne hne _ _).trans hy) hyamount hywithheld hyo, rfl⟩

/-! ### Runs -/

/-- The curator lists an asset, or removes an asset or a position. -/
def ManagedAction.Curates (curator : Pubkey) : ManagedAction → Prop
  | .core (.config (.addVaultAsset ctx _)) => ctx.authority = curator
  | .core (.config (.removeVaultAsset authority _)) => authority = curator
  | .venue (.removeVenuePosition ctx) => ctx.authority = curator
  | _ => False

/-- The primary asset, one that is listed, or one that the curator can list. -/
def ManagedState.Listable (s : ManagedState) (m : Pubkey) : Prop :=
  m = s.core.vault.assetMint ∨ (∃ va, s.core.vaultAssets m = some va) ∨
    ∃ ctx depositCap c, ctx.assetMint = m ∧ addVaultAsset s.core ctx depositCap = .ok c

/-- A run from `s` by instructions of `P`. -/
def ManagedState.Leads (verify : MerkleCheck) (P : ManagedAction → Prop)
    (s s' : ManagedState) : Prop :=
  ∃ tr, ManagedRun verify s tr s' ∧ ∀ t ∈ tr, P t.act

theorem ManagedState.Leads.invariant {P : ManagedAction → Prop} {I : ManagedState → Prop}
    (h : s.Leads verify P s') (hI : I s)
    (hstep : ∀ s b s', I s → P b → execManaged verify s b = .ok s' → I s') : I s' := by
  obtain ⟨tr, hrun, hP⟩ := h
  exact Run.invariant_of_forall (Q := fun t => P t.act) hstep hrun hP hI

theorem ManagedState.Leads.refl (P : ManagedAction → Prop) (s : ManagedState) :
    s.Leads verify P s :=
  ⟨[], .nil, fun _ ht => nomatch ht⟩

theorem ManagedState.Leads.snoc {P : ManagedAction → Prop} {t : ManagedState} {b : ManagedAction}
    (h : s.Leads verify P t) (he : execManaged verify t b = .ok s') (hb : P b) :
    s.Leads verify P s' := by
  obtain ⟨tr, hrun, hP⟩ := h
  refine ⟨_, hrun.snoc he, fun x hx => ?_⟩
  rcases List.mem_append.1 hx with hx | hx
  · exact hP x hx
  · obtain rfl := List.mem_singleton.1 hx
    exact hb

/-- The account at `a` is empty, and the fees withheld in it are at the mint or can be brought
there by an instruction of `P`. -/
def ManagedState.Clearable (P : ManagedAction → Prop) (s : ManagedState) (a : Pubkey) : Prop :=
  s.core.token.balance a = 0 ∧
    (s.core.token.withheld a = 0 ∨ ∃ k, k ≠ s.core.key ∧ P (harvest k a))

/-- The state with another ledger. -/
def ManagedState.withToken (s : ManagedState) (token : Ledger Pubkey) : ManagedState :=
  { s with core := { s.core with token := token } }

/-- The withheld fees of a clearable account can be brought to its mint, and nothing else
changes. -/
theorem leads_to_settled {P : ManagedAction → Prop} (hP : ∀ b, P b → b.Unmanaged)
    (hleads : s₀.Leads verify P s) (hs : s.InOrder) (he : s.Enrolled)
    (ha : s.core.token.HoldsAlone a m s.core.key) (hclear : s.Clearable P a) :
    ∃ token, s₀.Leads verify P (s.withToken token) ∧ (s.withToken token).InOrder ∧
      (s.withToken token).Enrolled ∧ token.withheld a = 0 ∧
      (∀ b, token.balance b = s.core.token.balance b) ∧
      ∀ b, s.core.token.withheld b = 0 → token.withheld b = 0 := by
  rcases hclear.2 with hsettled | ⟨k, hk, hharvest⟩
  · exact ⟨s.core.token, hleads, hs, he, hsettled, fun _ => rfl, fun _ h => h⟩
  · obtain ⟨x, hx, -⟩ := ha
    have hstep : execManaged verify s (harvest k a) =
        .ok (s.withToken (s.core.token.setAccount a { x with withheld := 0 })) := by
      simp only [harvest, execManaged, exec, execWorld, worldToken, VaultState.signer_eq_ok,
        bind_eq_ok, cpi_eq_ok, pure_eq_ok]
      exact ⟨_, ⟨_, ⟨(), hk, harvestWithheld_of_some hx k⟩, s.core.clock, rfl, rfl⟩, rfl⟩
    refine ⟨_, hleads.snoc hstep hharvest, hs.execManaged (hP _ hharvest) hstep,
      he.execManaged hs (hP _ hharvest) hstep, by simp, fun b => ?_, fun b hb => ?_⟩
    · rw [balance_setAccount]
      split
      · next hb => rw [hb, balance_of_some hx]
      · rfl
    · rw [withheld_setAccount]
      split
      · rfl
      · exact hb

/-- The curator removes a position with a clearable account when its asset is supported. -/
theorem leads_to_removal_of_supported {P : ManagedAction → Prop} (hP : ∀ b, P b → b.Unmanaged)
    (hleads : s₀.Leads verify P s) (hcurates : ∀ b, b.Curates s.core.vault.curator → P b)
    (hs : s.InOrder) (he : s.Enrolled) (hsigns : s.core.vault.curator ≠ s.core.key)
    (hfree : s.core.vault.timelockDelaySlots = 0) {key : VenueEntryKey × Pubkey} {p : Position}
    (hp : s.positions.lookup key = some p) (hzero : p.amount = 0)
    (hclear : s.Clearable P p.tokenAccount)
    (hsupported : key.2 = s.core.vault.assetMint ∨ ∃ va, s.core.vaultAssets key.2 = some va) :
    ∃ s', s₀.Leads verify P s' ∧ s'.positions.lookup key = none := by
  obtain ⟨token, hleads₁, hs₁, he₁, hsettled, hbalance, -⟩ :=
    leads_to_settled hP hleads hs he (hs.account hp).1 hclear
  obtain ⟨program, s', h, hgone⟩ := removeVenuePosition_isOk hs₁ he₁ hsigns hfree hp hzero
    ((hbalance _).trans hclear.1) hsettled hsupported
  exact ⟨s', hleads₁.snoc (b := .venue (.removeVenuePosition _)) h (hcurates _ rfl), hgone⟩

/-- The curator removes a position with a clearable account, listing its asset first if need
be. -/
theorem leads_to_removal {P : ManagedAction → Prop} (hP : ∀ b, P b → b.Unmanaged)
    (hcurates : ∀ b, b.Curates s.core.vault.curator → P b) (hs : s.InOrder) (he : s.Enrolled)
    (hsigns : s.core.vault.curator ≠ s.core.key) (hfree : s.core.vault.timelockDelaySlots = 0)
    {key : VenueEntryKey × Pubkey} {p : Position} (hp : s.positions.lookup key = some p)
    (hzero : p.amount = 0) (hclear : s.Clearable P p.tokenAccount)
    (hlistable : s.Listable key.2) :
    ∃ s', s.Leads verify P s' ∧ s'.positions.lookup key = none := by
  rcases hlistable with hm | hva | ⟨ctx, depositCap, c, hm, hadd⟩
  · exact leads_to_removal_of_supported hP (.refl P s) hcurates hs he hsigns hfree hp hzero hclear
      (.inl hm)
  · exact leads_to_removal_of_supported hP (.refl P s) hcurates hs he hsigns hfree hp hzero hclear
      (.inr hva)
  · have hstep : execManaged verify s (.core (.config (.addVaultAsset ctx depositCap))) =
        .ok { s with core := c } := by
      simp only [execManaged, bind_eq_ok, pure_eq_ok]
      exact ⟨c, hadd, rfl⟩
    obtain ⟨token₁, token, hl⟩ := addVaultAsset_listed hadd
    have hheld := (hs.account hp).1.holds
    have hu₁ := initializeAccount_untouched hl.reserve s.core.key
    have hu₂ := initializeAccount_untouched hl.pendingVault s.core.key
    have hbalance : token.balance p.tokenAccount = s.core.token.balance p.tokenAccount :=
      (hu₂.balance _ _ (hu₁.holds _ _ hheld)).trans (hu₁.balance _ _ hheld)
    have hwithheld : token.withheld p.tokenAccount = s.core.token.withheld p.tokenAccount :=
      (initializeAccount_withheld hl.pendingVault _).trans (initializeAccount_withheld hl.reserve _)
    have hs₁ := hs.execManaged (b := .core (.config (.addVaultAsset ctx depositCap))) trivial hstep
    have he₁ := he.execManaged hs (b := .core (.config (.addVaultAsset ctx depositCap))) trivial
      hstep
    have hlisted := (ManagedState.Leads.refl P s).snoc hstep (hcurates _ hl.curator)
    obtain rfl := hl.state
    refine leads_to_removal_of_supported hP hlisted hcurates hs₁ he₁ hsigns hfree hp hzero
      ⟨hbalance.trans hclear.1, ?_⟩ (.inr ⟨_, by rw [← hm]; exact update_self ..⟩)
    exact hclear.2.imp_left hwithheld.trans

/-- The curator removes another asset with clearable accounts when its ledgers are at zero. -/
theorem leads_to_asset_removal {P : ManagedAction → Prop} (hP : ∀ b, P b → b.Unmanaged)
    (hcurates : ∀ b, b.Curates s.core.vault.curator → P b) (hs : s.InOrder) (he : s.Enrolled)
    (hsigns : s.core.vault.curator ≠ s.core.key) (hfree : s.core.vault.timelockDelaySlots = 0)
    {va : VaultAsset} (hva : s.core.vaultAssets m = some va) (hidle : va.idleBalance = 0)
    (hdeployed : va.deployedBalance = 0) (hpending : va.pendingDepositAmount = 0)
    (hreserve : s.Clearable P va.reserve) (hescrow : s.Clearable P va.pendingVault) :
    ∃ s', s.Leads verify P s' ∧ s'.core.vaultAssets m = none := by
  have hvalid : ∀ {t : ManagedState}, t.InOrder → t.core.vaultAssets m = some va →
      t.core.token.HoldsAlone va.reserve m t.core.key ∧
        t.core.token.HoldsAlone va.pendingVault m t.core.key := by
    intro t ht hva
    have hasset : t.core.terms.assets m = some va.terms := by simp [VaultState.terms, hva]
    exact ⟨(ht.valid.assets m _ hasset).reserve, (ht.valid.assets m _ hasset).pendingVault⟩
  -- first the fees of the reserve, then those of the escrow
  obtain ⟨token₁, hleads₁, hs₁, he₁, hsettled₁, hbalance₁, hkept₁⟩ :=
    leads_to_settled hP (.refl P s) hs he (hvalid hs hva).1 hreserve
  have hescrow₁ : (s.withToken token₁).Clearable P va.pendingVault :=
    ⟨(hbalance₁ _).trans hescrow.1, hescrow.2.imp_left (hkept₁ _)⟩
  obtain ⟨token₂, hleads₂, hs₂, he₂, hsettled₂, hbalance₂, hkept₂⟩ :=
    leads_to_settled hP hleads₁ hs₁ he₁ (hvalid hs₁ hva).2 hescrow₁
  obtain ⟨c, h, hgone⟩ := removeVaultAsset_isOk hs₂ he₂ hsigns hfree hva hidle hdeployed hpending
    ((hbalance₂ _).trans ((hbalance₁ _).trans hreserve.1))
    ((hbalance₂ _).trans hescrow₁.1) (hkept₂ _ hsettled₁) hsettled₂
  have hstep : execManaged verify ((s.withToken token₁).withToken token₂)
      (.core (.config (.removeVaultAsset s.core.vault.curator m))) =
        .ok { s.withToken token₂ with core := c } := by
    simp only [execManaged, bind_eq_ok, pure_eq_ok]
    exact ⟨c, h, rfl⟩
  exact ⟨_, hleads₂.snoc hstep (hcurates _ rfl), hgone⟩

theorem execManaged_assetMint (hs : s.InOrder) {b : ManagedAction} (hb : b.Unmanaged)
    (h : execManaged verify s b = .ok s') :
    s'.core.vault.assetMint = s.core.vault.assetMint := by
  cases b with
  | core b =>
    simp only [execManaged, bind_eq_ok, pure_eq_ok] at h
    obtain ⟨c, hc, rfl⟩ := h
    exact exec_assetMint hc
  | venue i => exact congrArg Terms.assetMint (execVenue_kept hs.valid.coherent h).terms
  | policy i => rw [execPolicy_core h]
  | manageVault => exact hb.elim

/-- Nothing is claimable in another asset, so its escrow owes what is reserved. -/
theorem claimableRedeems_of_primaryClaims (hc : c.PrimaryClaims) (hm : m ≠ c.vault.assetMint) :
    c.claimableRedeems m = 0 := by
  unfold VaultState.claimableRedeems VaultState.amounts
  refine total_eq_zero fun k r hr => if_neg ?_
  rintro ⟨-, hclaimable, rfl⟩
  exact hm (hc k r hr hclaimable)

/-- What a position does not record keeps it. -/
theorem ManagedState.InOrder.not_removed (hs : s.InOrder) {key : VenueEntryKey × Pubkey}
    (hd : s.Dusty key n) (hn : 0 < n) {P : ManagedAction → Prop} (hP : ∀ b, P b → b.Unmanaged)
    (hleads : s.Leads verify P s') : s'.positions.lookup key ≠ none := by
  obtain ⟨-, p, hp, -⟩ := hleads.invariant (I := fun t => t.InOrder ∧ t.Dusty key n) ⟨hs, hd⟩
    fun t b t' ⟨ht, hd⟩ hb h => ⟨ht.execManaged (hP b hb) h, ht.dusty hd hn (hP b hb) h⟩
  rw [hp]
  simp

/-- Nor does a position go in whose account fees are withheld, without a harvest. -/
theorem ManagedState.InOrder.not_removed_of_charged (hs : s.InOrder)
    {key : VenueEntryKey × Pubkey} (hd : s.Charged key a) {P : ManagedAction → Prop}
    (hP : ∀ b, P b → b.Unmanaged) (hno : ¬∃ k, k ≠ s.core.key ∧ P (harvest k a))
    (hleads : s.Leads verify P s') : s'.positions.lookup key ≠ none := by
  obtain ⟨-, -, p, hp, -⟩ := hleads.invariant
    (I := fun t => t.InOrder ∧ t.core.key = s.core.key ∧ t.Charged key a) ⟨hs, rfl, hd⟩
    fun t b t' ⟨ht, hkey, hd⟩ hb h => ⟨ht.execManaged (hP b hb) h,
      (execManaged_key h).trans hkey, ht.charged hd (hP b hb)
        (fun k hk he => hno ⟨k, hkey ▸ hk, he ▸ hb⟩) h⟩
  rw [hp]
  simp

theorem ManagedState.InOrder.asset_not_removed_of_charged (hs : s.InOrder)
    (hd : s.ChargedAsset m a) {P : ManagedAction → Prop} (hP : ∀ b, P b → b.Unmanaged)
    (hno : ¬∃ k, k ≠ s.core.key ∧ P (harvest k a)) (hleads : s.Leads verify P s') :
    s'.core.vaultAssets m ≠ none := by
  obtain ⟨-, -, va, hva, -⟩ := hleads.invariant
    (I := fun t => t.InOrder ∧ t.core.key = s.core.key ∧ t.ChargedAsset m a) ⟨hs, rfl, hd⟩
    fun t b t' ⟨ht, hkey, hd⟩ hb h => ⟨ht.execManaged (hP b hb) h,
      (execManaged_key h).trans hkey, ht.chargedAsset hd (hP b hb)
        (fun k hk he => hno ⟨k, hkey ▸ hk, he ▸ hb⟩) h⟩
  rw [hva]
  simp

/-- **Removal needs empty accounts, and nothing else.**  In a state of a run without managed
calls, with no timelock and a curator that can sign, take a position that records nothing, in an
asset that is listed or can be, or another asset whose ledgers are at zero.  Whatever
instructions are allowed, the curator's but no managed calls, some sequence of them removes it
exactly when its token accounts hold no tokens, and no withheld fees that none of the allowed
instructions harvests. -/
theorem removal_needs_empty_accounts (h₀ : s₀.Created) (hrun : ManagedRun verify s₀ tr s)
    (hu : ∀ t ∈ tr, t.act.Unmanaged) (hsigns : s.core.vault.curator ≠ s.core.key)
    (hfree : s.core.vault.timelockDelaySlots = 0) {P : ManagedAction → Prop}
    (hcurates : ∀ b, b.Curates s.core.vault.curator → P b) (hP : ∀ b, P b → b.Unmanaged) :
    (∀ key p, s.positions.lookup key = some p → p.amount = 0 → s.Listable key.2 →
      ((∃ s', s.Leads verify P s' ∧ s'.positions.lookup key = none) ↔
        s.Clearable P p.tokenAccount)) ∧
    ∀ m va, s.core.vaultAssets m = some va → va.idleBalance = 0 → va.deployedBalance = 0 →
      va.pendingDepositAmount = 0 →
      ((∃ s', s.Leads verify P s' ∧ s'.core.vaultAssets m = none) ↔
        s.Clearable P va.reserve ∧ s.Clearable P va.pendingVault) := by
  have hinv : s.InOrder ∧ s.FailsClosed ∧ s.Enrolled :=
    Run.invariant_of_forall (I := fun s => s.InOrder ∧ s.FailsClosed ∧ s.Enrolled)
      (Q := fun t => t.act.Unmanaged)
      (fun _ _ _ hs hb he => ⟨hs.1.execManaged hb he, hs.2.1.execManaged hs.1 hb he,
        hs.2.2.execManaged hs.1 hb he⟩)
      hrun hu ⟨h₀.inOrder, h₀.failsClosed, h₀.enrolled⟩
  obtain ⟨hs, hclosed, he⟩ := hinv
  refine ⟨fun key p hp hzero hlistable => ⟨?_, fun hclear => ?_⟩,
    fun m va hva hidle hdeployed hpending => ⟨?_, fun hclear => ?_⟩⟩
  · rintro ⟨s', hleads, hgone⟩
    constructor
    · by_contra hpos
      have hdusty : s.Dusty key (s.core.token.balance p.tokenAccount) := ⟨p, hp, by omega⟩
      exact hs.not_removed hdusty (by omega) hP hleads hgone
    · by_contra hno
      rw [not_or] at hno
      have hcharged : s.Charged key p.tokenAccount := ⟨p, hp, rfl, Nat.pos_of_ne_zero hno.1⟩
      exact hs.not_removed_of_charged hcharged hP hno.2 hleads hgone
  · exact leads_to_removal hP hcurates hs he hsigns hfree hp hzero hclear hlistable
  · rintro ⟨s', hleads, hgone⟩
    have hasset : s.core.terms.assets m = some va.terms := by simp [VaultState.terms, hva]
    have hm : s.core.vault.assetMint ≠ m := (hs.valid.assets m _ hasset).ne_primary
    have hescrow : s.core.terms.pendingVaultOf m = some va.pendingVault := by
      simp [Terms.pendingVaultOf, hm, VaultState.terms, hva, VaultAsset.terms]
    have hsettled : ∀ a, va.reserve = a ∨ va.pendingVault = a →
        s.core.token.withheld a = 0 ∨ ∃ k, k ≠ s.core.key ∧ P (harvest k a) := by
      intro a ha
      by_contra hno
      rw [not_or] at hno
      have hcharged : s.ChargedAsset m a := ⟨va, hva, ha, Nat.pos_of_ne_zero hno.1⟩
      exact hs.asset_not_removed_of_charged hcharged hP hno.2 hleads hgone
    refine ⟨⟨?_, hsettled _ (.inl rfl)⟩, ?_, hsettled _ (.inr rfl)⟩
    · by_contra hpos
      have hstranded : s.Stranded m := ⟨va, hva, by omega⟩
      obtain ⟨-, -, va', hva', -⟩ := hleads.invariant
        (I := fun t => t.InOrder ∧ t.FailsClosed ∧ t.Stranded m) ⟨hs, hclosed, hstranded⟩
        fun t b t' ht hb h =>
          ⟨ht.1.execManaged (hP b hb) h, ht.2.1.execManaged ht.1 (hP b hb) h,
            ht.1.stranded ht.2.1 ht.2.2 (hP b hb) h⟩
      exact absurd (hva'.symm.trans hgone) (by simp)
    · by_contra hpos
      have hreserved : s.core.book.reserved m = 0 := (reserved_secondary hm hva).trans hpending
      have hnone := claimableRedeems_of_primaryClaims hclosed.claims hm.symm
      have hsurplus : s.core.Surplus m (s.core.token.balance va.pendingVault) := by
        rw [VaultState.Surplus, hreserved, VaultState.book_claimableRedeems, hnone,
          VaultState.escrow_of_some hescrow]
        omega
      obtain ⟨-, hbase, hd⟩ := hleads.invariant
        (I := fun t => t.InOrder ∧ t.core.vault.assetMint = s.core.vault.assetMint ∧
          t.core.Surplus m (s.core.token.balance va.pendingVault)) ⟨hs, rfl, hsurplus⟩
        fun t b t' ht hb h =>
          ⟨ht.1.execManaged (hP b hb) h, (execManaged_assetMint ht.1 (hP b hb) h).trans ht.2.1,
            ht.1.surplus ht.2.2 (hP b hb) h⟩
      -- an asset that is gone has no escrow
      have hgone' : s'.core.book.escrow m = 0 := by
        have hm' : s'.core.vault.assetMint ≠ m := hbase.trans_ne hm
        have hterms : s'.core.terms.pendingVaultOf m = none := by
          simp [Terms.pendingVaultOf, hm', VaultState.terms, hgone]
        simp [VaultState.book, hterms]
      rw [VaultState.Surplus, hgone'] at hd
      omega
  · exact leads_to_asset_removal hP hcurates hs he hsigns hfree hva hidle hdeployed hpending
      hclear.1 hclear.2

namespace Scenario

/-- The user sends one unit to the account of the open position. -/
def dust : ManagedAction :=
  .core (.world (.transfer user .token userAsset asset (address 27) 1))

end Scenario

open Scenario in
/-- **Non-vacuity.**  The position just opened can be removed. -/
theorem removal_needs_empty_accounts_of_opened :
    ∃ s s' : ManagedState, (s.positions.lookup (venue, asset)).isSome ∧
      s.Leads noCalls ManagedAction.Unmanaged s' ∧ s'.positions.lookup (venue, asset) = none := by
  obtain ⟨s₀, tr, s, h₀, hrun, -, hp⟩ := exists_managed_run openVenue
    (fun tr s => (tr.all fun t => decide t.act.Unmanaged) &&
      decide (s.core.vault.curator ≠ s.core.key) && decide (s.core.vault.timelockDelaySlots = 0) &&
      decide (asset = s.core.vault.assetMint) &&
      (s.positions.lookup (venue, asset)).any fun (p : Position) => decide (p.amount = 0) &&
        decide (s.core.token.balance p.tokenAccount = 0) &&
        decide (s.core.token.withheld p.tokenAccount = 0))
    (by decide +kernel)
  simp only [Bool.and_eq_true, List.all_eq_true, Option.any_eq_true, decide_eq_true_eq] at hp
  obtain ⟨⟨⟨⟨hu, hsigns⟩, hfree⟩, hprimary⟩, p, hp, ⟨hzero, hempty⟩, hsettled⟩ := hp
  have hcurates : ∀ b, ManagedAction.Curates s.core.vault.curator b → b.Unmanaged := by
    intro b hb
    cases b with
    | manageVault => exact hb.elim
    | _ => trivial
  obtain ⟨s', hleads, hgone⟩ := ((removal_needs_empty_accounts h₀ hrun hu hsigns hfree hcurates
    fun _ hb => hb).1 (venue, asset) p hp hzero (.inl hprimary)).2 ⟨hempty, .inl hsettled⟩
  exact ⟨s, s', by rw [hp]; rfl, hleads, hgone⟩

open Scenario in
/-- **A transfer nobody asked for blocks a removal.**  The vault is not paused and has no timelock,
and the position records nothing; no sequence of instructions, managed calls apart, removes it
once its account holds one unit. -/
theorem dust_blocks_removal :
    ∃ s₀ tr s, ManagedState.Created s₀ ∧ ManagedRun noCalls s₀ tr s ∧
      (∀ t ∈ tr, t.act.Unmanaged) ∧ s.core.vault.paused = false ∧
      s.core.vault.timelockDelaySlots = 0 ∧
      (∃ p, s.positions.lookup (venue, asset) = some p ∧ p.amount = 0) ∧
      s.Listable asset ∧ ¬∃ s', s.Leads noCalls ManagedAction.Unmanaged s' ∧
        s'.positions.lookup (venue, asset) = none := by
  obtain ⟨s₀, tr, s, h₀, hrun, -, hp⟩ := exists_managed_run (openVenue ++ [.core start, dust])
    (fun tr s => (tr.all fun t => decide t.act.Unmanaged) &&
      decide (s.core.vault.paused = false) && decide (s.core.vault.timelockDelaySlots = 0) &&
      decide (asset = s.core.vault.assetMint) &&
      (s.positions.lookup (venue, asset)).any fun (p : Position) => decide (p.amount = 0) &&
        decide (s.core.token.balance p.tokenAccount = 1))
    (by decide +kernel)
  simp only [Bool.and_eq_true, List.all_eq_true, Option.any_eq_true, decide_eq_true_eq] at hp
  obtain ⟨⟨⟨⟨hu, hpaused⟩, hfree⟩, hprimary⟩, p, hp, hzero, hdust⟩ := hp
  have hs : s.InOrder := Run.invariant_of_forall (Q := fun t => t.act.Unmanaged)
    (fun _ _ _ hs hb he => hs.execManaged hb he) hrun hu h₀.inOrder
  refine ⟨s₀, tr, s, h₀, hrun, hu, hpaused, hfree, ⟨p, hp, hzero⟩, .inl hprimary, ?_⟩
  rintro ⟨s', hleads, hgone⟩
  exact hs.not_removed (n := 1) ⟨p, hp, by omega⟩ Nat.one_pos (fun _ hb => hb) hleads hgone

end AsyncVault
