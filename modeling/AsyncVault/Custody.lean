/-
AsyncVault/Custody.lean

The vault keeps its tokens as long as no managed call is made.

A managed call runs any program with the vault's signature, and nothing is said
of the tokens after it.  Every other transaction leaves the vault in possession
of the accounts its terms name (`Terms.Uses`) and of the accounts of its open
positions, which are others (`Custodial`).  So the order book of the core keeps
its steps although venues move tokens between these accounts (`Moved`), and
whatever was proved of reachable states of the core holds of the whole program
(`ManagedRun.custodial`).
-/
import AsyncVault.VenueEffects

namespace AsyncVault

open Checked TokenLedger KeyedStore OrderBook Function Machine

variable {c c' : VaultState} {s s' s₀ : ManagedState} {m a : Pubkey} {verify : MerkleCheck}
variable {tr : List (Transition ManagedState ManagedAction)}

/-! ### The accounts of the terms -/

/-- The token accounts the terms name. -/
def Terms.Uses (t : Terms) (a : Pubkey) : Prop :=
  a = t.vaultTokenAccount ∨ a = t.pendingVault ∨
    ∃ m x, t.assets m = some x ∧ (a = x.reserve ∨ a = x.pendingVault)

theorem Terms.Valid.alone_used {t : Terms} {token : Ledger Pubkey} (hv : t.Valid token)
    (ha : t.Uses a) : ∃ m, token.HoldsAlone a m t.key := by
  rcases ha with rfl | rfl | ⟨m, x, hx, rfl | rfl⟩
  · exact ⟨_, hv.reserve⟩
  · exact ⟨_, hv.pendingVault⟩
  · exact ⟨m, (hv.assets m x hx).reserve⟩
  · exact ⟨m, (hv.assets m x hx).pendingVault⟩

theorem Terms.uses_pendingVault {t : Terms} (ha : t.pendingVaultOf m = some a) : t.Uses a := by
  unfold pendingVaultOf at ha
  split at ha
  · exact .inr (.inl (Option.some.inj ha).symm)
  · obtain ⟨x, hx, rfl⟩ := Option.map_eq_some_iff.1 ha
    exact .inr (.inr ⟨m, x, hx, .inr rfl⟩)

theorem Terms.uses_reserve {t : Terms} (ha : t.reserveOf m = some a) : t.Uses a := by
  unfold reserveOf at ha
  split at ha
  · exact .inl (Option.some.inj ha).symm
  · obtain ⟨x, hx, rfl⟩ := Option.map_eq_some_iff.1 ha
    exact .inr (.inr ⟨m, x, hx, .inl rfl⟩)

/-- Every asset is escrowed apart from its reserve. -/
def Terms.Apart (t : Terms) : Prop :=
  ∀ m x, t.assets m = some x → x.reserve ≠ x.pendingVault

/-- A reserve escrows nothing. -/
theorem Terms.Valid.reserveOf_not_escrow {t : Terms} {token : Ledger Pubkey} (hv : t.Valid token)
    (hd : t.Apart) (ha : t.reserveOf m = some a) (m' : Pubkey) : t.pendingVaultOf m' ≠ some a := by
  intro hm'
  have hholds := hv.holds_pendingVaultOf hm'
  unfold reserveOf at ha
  split at ha
  · obtain rfl := Option.some.inj ha
    exact hv.reserve_not_escrow m' hm'
  · next hm =>
    obtain ⟨x, hx, rfl⟩ := Option.map_eq_some_iff.1 ha
    obtain rfl := (hholds.unique (hv.assets m x hx).reserve.holds).1
    simp only [pendingVaultOf, hm, if_false, hx, Option.map_some, Option.some.injEq] at hm'
    exact hd _ x hx hm'.symm

/-! ### Moving tokens between the vault's accounts -/

/-- Nothing of the order book moved but its tokens. -/
structure Resting (c c' : VaultState) : Prop extends Kept c c' where
  trancheConfig : c'.trancheConfig = c.trancheConfig
  shareMint : c'.vault.shareMint = c.vault.shareMint
  nav : c'.vault.nav = c.vault.nav
  assets : c'.vault.totalAssetBalance = c.vault.totalAssetBalance

theorem Kept.resting (h : Kept c c') (hidle : Idle c c') : Resting c c' := by
  have hshare : c'.vault.settings.shareMint = c.vault.settings.shareMint :=
    congrArg _ hidle.settings
  have hnav : c'.vault.settings.nav = c.vault.settings.nav := congrArg _ hidle.settings
  exact ⟨h, hidle.sameTranches, hshare, hnav, congrArg Docket.totalAssetBalance hidle.docket⟩

theorem Resting.book (h : Resting c c') :
    c'.book = { c.book with
      escrow := c'.book.escrow
      supply := c'.book.supply
      unit := c'.book.unit } := by
  refine Book.ext ?_ h.openCount (funext h.reserved) rfl rfl ?_ ?_ rfl ?_ h.shareMint h.nav
    h.assets
  · exact congrArg (mapVal Request.order) h.requests
  · simp only [VaultState.book, h.trancheConfig]
  · simp only [VaultState.book, h.trancheConfig]
  · simp only [VaultState.book, h.trancheConfig]

/-- Tokens moved between the accounts of the vault, and no escrow lost any. -/
structure Moved (c c' : VaultState) : Prop extends Resting c c' where
  mints : c'.token.mints = c.token.mints
  used : ∀ a m, c.terms.Uses a → c.token.HoldsAlone a m c.key → c'.token.HoldsAlone a m c.key
  escrow : ∀ m a, c.terms.pendingVaultOf m = some a → c.token.balance a ≤ c'.token.balance a

theorem Moved.valid (h : Moved c c') (hv : c.terms.Valid c.token) : c'.terms.Valid c'.token := by
  rw [h.terms]
  refine ⟨fun m hm => ?_, hv.plain, hv.tranched, h.used _ _ (.inl rfl) hv.reserve,
    h.used _ _ (.inr (.inl rfl)) hv.pendingVault, hv.reserve_ne, fun m x hx => ?_⟩
  · obtain ⟨y, hy, hauth⟩ := hv.mintable m hm
    exact ⟨y, by rw [h.mints, hy], hauth⟩
  · have ha := hv.assets m x hx
    exact ⟨ha.vault, ha.assetMint, ha.ne_primary,
      h.used _ _ (.inr (.inr ⟨m, x, hx, .inl rfl⟩)) ha.reserve,
      h.used _ _ (.inr (.inr ⟨m, x, hx, .inr rfl⟩)) ha.pendingVault⟩

/-- The order book does not see it. -/
theorem Moved.refines (h : Moved c c') (hw : c.WellFormed) : Refines c .configured c' where
  key := congrArg Terms.key h.terms
  wellFormed := by
    refine ⟨h.valid hw.terms, fun k r hr => ?_, fun hi => ?_⟩
    · rw [h.requests] at hr
      exact (hw.requests k r hr).of_terms h.terms
    · rw [h.requests]
      exact hw.uninitialized ((congrArg Terms.initialized h.terms).symm.trans hi)
  step := by
    have hsupply : c'.book.supply = c.book.supply := by
      simp only [VaultState.book, h.terms, Ledger.supply, h.mints]
    have hunit : c'.book.unit = c.book.unit := by
      simp only [VaultState.book, h.terms, Ledger.unit, h.mints]
    have hbook : c'.book = { c.book with escrow := c'.book.escrow } := by
      rw [h.toResting.book, hsupply, hunit]
    rw [hbook]
    exact Step.idle (.inl rfl) (VaultState.escrow_mono h.terms h.escrow)

theorem Refines.ledgered {e : Event Pubkey} (h : Refines c e c') (hl : Ledgered c) :
    Ledgered c' :=
  ⟨h.wellFormed, fun m => h.step.escrowedAt (hl.escrowedAt m), h.step.openCount hl.openCount,
    h.step.coversShares hl.coversShares⟩

/-! ### Custody -/

/-- The token account of a position. -/
def ManagedState.positionAccount (s : ManagedState) (k : VenueEntryKey × Pubkey) :
    Option Pubkey :=
  (s.positions.lookup k).map Position.tokenAccount

/-- **What the vault keeps**: its order book is in order, and it holds an account of its own for
each open position. -/
structure Custodial (s : ManagedState) : Prop where
  ledgered : Ledgered s.core
  apart : s.core.terms.Apart
  alone : ∀ k a, s.positionAccount k = some a → s.core.token.HoldsAlone a k.2 s.core.key
  unused : ∀ k a, s.positionAccount k = some a → ¬s.core.terms.Uses a
  distinct : ∀ k k' a, s.positionAccount k = some a → s.positionAccount k' = some a → k = k'

theorem Custodial.holds (h : Custodial s) {k : VenueEntryKey × Pubkey}
    (ha : s.positionAccount k = some a) : s.core.token.Holds a k.2 s.core.key :=
  (h.alone k a ha).holds

theorem Custodial.valid (h : Custodial s) : s.core.terms.Valid s.core.token :=
  h.ledgered.wellFormed.terms

/-! ### Instructions of the core -/

/-- The accounts outside the terms were left alone, and no mint disappeared. -/
structure Spared (c c' : VaultState) : Prop where
  key : c'.key = c.key
  apart : c.terms.Apart → c'.terms.Apart
  lasting : Lasting c.token c'.token
  alone : ∀ a m, ¬c.terms.Uses a → c.token.HoldsAlone a m c.key → c'.token.HoldsAlone a m c.key
  unused : ∀ a m, ¬c.terms.Uses a → c.token.HoldsAlone a m c.key → ¬c'.terms.Uses a

theorem Spared.of_terms (ht : c'.terms = c.terms) (hl : Lasting c.token c'.token)
    (hg : ∀ a m, c.token.HoldsAlone a m c.key → c'.token.HoldsAlone a m c.key) : Spared c c' where
  key := congrArg Terms.key ht
  apart := by rw [ht]; exact id
  lasting := hl
  alone a m _ := hg a m
  unused a m ha _ := by rwa [ht]

theorem Framed.spared (h : Framed c c') : Spared c c' :=
  .of_terms h.terms h.shape.lasting fun _ _ => h.shape.holdsAlone

theorem Reconfigured.spared (h : Reconfigured c c') : Spared c c' where
  key := h.key
  apart := by rw [h.terms]; exact id
  lasting := .of_eq (congrArg Ledger.mints h.token)
  alone a m _ := by rw [h.token]; exact id
  unused a m ha _ := by rw [h.terms]; exact ha

/-- A split hands over the authority of a mint. -/
theorem initializeTranches_spared {ctx : InitializeTranches} {args : InitializeTranchesArgs}
    (h : initializeTranches c ctx args = .ok c') : Spared c c' := by
  obtain ⟨token, hd⟩ := initializeTranches_divides h
  obtain rfl := hd.state
  refine ⟨rfl, id, hd.lasting, fun a m _ ha => ?_, fun a m ha _ => ha⟩
  obtain ⟨x, hx, hxm⟩ := ha
  exact ⟨x, (congrFun hd.accounts a).trans hx, hxm⟩

/-- A registered asset gets accounts at free addresses. -/
theorem addVaultAsset_spared {ctx : AddVaultAsset} {depositCap : ℕ}
    (h : addVaultAsset c ctx depositCap = .ok c') : Spared c c' := by
  obtain ⟨token₁, token, hl⟩ := addVaultAsset_listed h
  obtain rfl := hl.state
  obtain ⟨⟨hfree₁, -⟩, ht₁⟩ := initializeAccount_ok hl.reserve
  obtain ⟨⟨hfree₂, -⟩, ht₂⟩ := initializeAccount_ok hl.pendingVault
  have hu₁ := initializeAccount_untouched hl.reserve c.key
  have hu₂ := initializeAccount_untouched hl.pendingVault c.key
  have hne : ctx.reserve ≠ ctx.pendingVault := by
    intro he
    rw [ht₁, ← he] at hfree₂
    simp [Ledger.setAccount] at hfree₂
  -- an account that exists is at none of the new addresses
  have hfresh : ∀ a m, c.token.Holds a m c.key → a ≠ ctx.reserve ∧ a ≠ ctx.pendingVault := by
    rintro a m ha
    refine ⟨?_, ?_⟩
    · rintro rfl
      obtain ⟨x, hx, -⟩ := ha
      rw [hfree₁] at hx
      cases hx
    · rintro rfl
      obtain ⟨x, hx, -⟩ := hu₁.holds _ _ ha
      rw [hfree₂] at hx
      cases hx
  have hmints : token.mints = c.token.mints := by
    rw [ht₂, ht₁, mints_setAccount, mints_setAccount]
  refine ⟨rfl, fun hd m x hx => ?_, .of_eq hmints,
    fun a m _ ha => hu₂.alone _ _ (hu₁.alone _ _ ha), fun a m hna ha => ?_⟩
  · by_cases hm : m = ctx.assetMint
    · subst hm
      obtain rfl : x = ⟨c.key, ctx.assetMint, ctx.reserve, ctx.pendingVault⟩ := by
        simpa [VaultState.terms, VaultState.setAsset, VaultAsset.terms] using hx.symm
      exact hne
    · exact hd m x (by simpa [VaultState.terms, VaultState.setAsset, hm] using hx)
  · rintro (rfl | rfl | ⟨m', x, hx, hax⟩)
    · exact hna (.inl rfl)
    · exact hna (.inr (.inl rfl))
    · by_cases hm : m' = ctx.assetMint
      · subst hm
        obtain rfl : x = ⟨c.key, ctx.assetMint, ctx.reserve, ctx.pendingVault⟩ := by
          simpa [VaultState.terms, VaultState.setAsset, VaultAsset.terms] using hx.symm
        exact hax.elim (hfresh a m ha.holds).1 (hfresh a m ha.holds).2
      · exact hna (.inr (.inr ⟨m', x, by simpa [VaultState.terms, VaultState.setAsset, hm] using hx,
          hax⟩))

/-- A removed asset takes its own accounts with it. -/
theorem removeVaultAsset_spared {authority : Pubkey}
    (h : removeVaultAsset c authority m = .ok c') : Spared c c' := by
  obtain ⟨va, token₁, token, count, hremoved⟩ := removeVaultAsset_removed h
  obtain ⟨hmints, haccounts⟩ := hremoved.accounts
  obtain rfl := hremoved.state
  have hterms : ∀ m' x, (c.setAsset token m none count).terms.assets m' = some x →
      c.terms.assets m' = some x := by
    intro m' x hx
    by_cases hm : m' = m
    · subst hm
      simp [VaultState.terms, VaultState.setAsset] at hx
    · simpa [VaultState.terms, VaultState.setAsset, hm] using hx
  have hasset : c.terms.assets m = some va.terms := by simp [VaultState.terms, hremoved.found]
  refine ⟨rfl, fun hd m' x hx => hd m' x (hterms m' x hx),
    .of_eq hmints, fun a m' hna ha => ?_, fun a m' hna ha => ?_⟩
  · have hne : a ≠ va.reserve := fun he => hna (.inr (.inr ⟨m, _, hasset, .inl he⟩))
    have hne' : a ≠ va.pendingVault := fun he => hna (.inr (.inr ⟨m, _, hasset, .inr he⟩))
    obtain ⟨x, hx, hxm⟩ := ha
    exact ⟨x, (haccounts a hne hne').trans hx, hxm⟩
  · rintro (rfl | rfl | ⟨m'', x, hx, hax⟩)
    · exact hna (.inl rfl)
    · exact hna (.inr (.inl rfl))
    · exact hna (.inr (.inr ⟨m'', x, hterms m'' x hx, hax⟩))

/-- Third parties do not undo a mint. -/
theorem worldToken_lasting {w : WorldAction} {token : Ledger Pubkey}
    (h : worldToken c w = .ok token) : Lasting c.token token := by
  cases w <;> simp only [worldToken, bind_eq_ok, cpi_eq_ok, pure_eq_ok] at h
  case transfer =>
    obtain ⟨-, -, h⟩ := h
    exact (transfer_ok h).shape.lasting
  case burn =>
    obtain ⟨-, -, h⟩ := h
    exact (burn_ok h).shape.lasting
  case transferDelegated =>
    obtain ⟨-, -, h⟩ := h
    exact .of_eq (transferDelegated_ok h).mints
  case burnDelegated =>
    obtain ⟨-, -, h⟩ := h
    exact (burnDelegated_ok h).lasting
  case applySetting =>
    obtain ⟨-, -, h⟩ := h
    exact (applySetting_ok h).lasting
  case mintTo =>
    obtain ⟨-, -, h⟩ := h
    exact (mintTo_ok h).shape.lasting
  case initializeMint => exact initializeMint_lasting h
  case setMintAuthority =>
    obtain ⟨-, -, h⟩ := h
    exact setMintAuthority_lasting h
  case setTransferFee =>
    obtain ⟨-, -, h⟩ := h
    exact setTransferFee_lasting h
  case initializeAccount =>
    obtain ⟨-, rfl⟩ := initializeAccount_ok h
    exact .of_eq rfl
  case closeAccount =>
    obtain ⟨-, -, h⟩ := h
    obtain ⟨-, -, -, rfl⟩ := closeAccount_ok h
    exact .of_eq rfl
  case advanceClock =>
    subst h
    exact .of_eq rfl

/-- **The core leaves the accounts of positions alone.** -/
theorem exec_spared (hw : c.WellFormed) {b : Action} (h : exec c b = .ok c') : Spared c c' := by
  cases b with
  | request i remaining => exact (execRequest_tally hw.terms.coherent hw.requests h).1.spared
  | instantDeposit ctx amount remaining => exact (instantDeposit_settles h).toFramed.spared
  | instantRedeem ctx shares remaining => exact (instantRedeem_settles h).toFramed.spared
  | updateVaultNav authority u remaining => exact (updateVaultNav_settles h).toFramed.spared
  | config i =>
    by_cases hi : i.IsSetting
    · exact (execConfig_reconfigured hi h).spared
    · cases i <;> try exact absurd trivial hi
      case initializeTranches => exact initializeTranches_spared h
      case addVaultAsset => exact addVaultAsset_spared h
      case removeVaultAsset => exact removeVaultAsset_spared h
  | world w =>
    obtain ⟨token, clock, htoken, rfl⟩ := execWorld_ok h
    exact .of_terms rfl (worldToken_lasting htoken) (worldToken_outside htoken).alone

/-! ### Venues -/

/-- A venue instruction moves tokens between accounts of the vault, or out of its reserve. -/
theorem execVenue_moved (hs : Custodial s) {i : VenueInstruction} (h : execVenue s i = .ok s') :
    Moved s.core s'.core := by
  have hv := hs.valid
  have hresting := (execVenue_kept hv.coherent h).resting (execVenue_idle h).1
  have hmoved : (∀ a m, s.core.terms.Uses a → s.core.token.HoldsAlone a m s.core.key →
        s'.core.token.HoldsAlone a m s.core.key) →
      (∀ m a, s.core.terms.pendingVaultOf m = some a →
        s.core.token.balance a ≤ s'.core.token.balance a) → Moved s.core s'.core :=
    fun hu he => ⟨hresting, execVenue_mints hv.coherent h, hu, he⟩
  cases execVenue_effect hv.coherent h with
  | still recorded token positions =>
    refine hmoved (fun a m _ => ?_) fun m a _ => ?_
    · rw [token]
      exact id
    · rw [token]
  -- a new account is at a fresh address
  | opened fresh token asset empty positions =>
    have hun := initializeAccount_untouched token s.core.key
    refine hmoved (fun a m _ => hun.alone a m) fun m a ha => ?_
    exact (hun.balance a m (hv.holds_pendingVaultOf ha)).ge
  -- the source is a reserve, the target a position: no escrow is debited
  | deployed found asset source token balance positions =>
    refine hmoved (fun a m _ => token.shape.holdsAlone) fun m a ha => ?_
    refine token.spent.balance_of_ne a ?_
    rintro rfl
    exact hv.reserveOf_not_escrow hs.apart source m ha
  | @pulled ctx amount rest p reserve program found asset target token balance left positions =>
    refine hmoved (fun a m _ => token.shape.holdsAlone) fun m a ha => ?_
    refine token.spent.balance_of_ne a ?_
    rintro rfl
    exact hs.unused (ctx.venueEntry, ctx.assetMint) _
      (by simp [ManagedState.positionAccount, found])
      (Terms.uses_pendingVault ha)
  -- a position account is used for nothing else, so closing it spares the others
  | @closed ctx p found empty token positions =>
    have hunused := hs.unused (ctx.venueEntry, ctx.assetMint) p.tokenAccount
      (by simp [ManagedState.positionAccount, found])
    obtain ⟨-, -, -, htoken⟩ := closeAccount_ok token
    have hsame : ∀ a, s.core.terms.Uses a →
        s'.core.token.accounts a = s.core.token.accounts a := by
      intro a ha
      rw [htoken]
      refine update_of_ne ?_ _ _
      rintro rfl
      exact hunused ha
    refine hmoved (fun a m ha hholds => ?_) fun m a ha => ?_
    · obtain ⟨x, hx, hxm⟩ := hholds
      exact ⟨x, (hsame a ha).trans hx, hxm⟩
    · simp only [Ledger.balance, hsame a (Terms.uses_pendingVault ha)]
      exact le_rfl
  -- a withdrawal is paid by the reserve
  | withdrew venue held token positions =>
    refine hmoved (fun a m _ => token.shape.holdsAlone) fun m a ha => ?_
    refine token.spent.balance_of_ne a ?_
    rintro rfl
    exact hv.reserve_not_escrow m ha

/-! ### Runs -/

namespace Custodial

/-- Whatever keeps the positions and spares their accounts keeps the custody. -/
theorem of_spared (h : Custodial s) (hl : Ledgered s'.core) (hspared : Spared s.core s'.core)
    (hp : s'.positionAccount = s.positionAccount) : Custodial s' where
  ledgered := hl
  apart := hspared.apart h.apart
  alone k a hk := by
    rw [hp] at hk
    rw [hspared.key]
    exact hspared.alone a _ (h.unused k a hk) (h.alone k a hk)
  unused k a hk := by
    rw [hp] at hk
    exact hspared.unused a _ (h.unused k a hk) (h.alone k a hk)
  distinct k k' a hk hk' := by
    rw [hp] at hk hk'
    exact h.distinct k k' a hk hk'

/-- Moving tokens between a position and a reserve keeps the accounts. -/
theorem of_shape (h : Custodial s) (hm : Moved s.core s'.core)
    (hshape : SameShape s.core.token s'.core.token) (hp : s'.positionAccount = s.positionAccount) :
    Custodial s' :=
  h.of_spared ((hm.refines h.ledgered.wellFormed).ledgered h.ledgered)
    (.of_terms hm.terms hshape.lasting fun _ _ => hshape.holdsAlone) hp

theorem positionAccount_insert {k : VenueEntryKey × Pubkey} {p : Position}
    (hp : s'.positions = s.positions.insert k p) :
    s'.positionAccount = update s.positionAccount k (some p.tokenAccount) := by
  funext k'
  by_cases hk : k' = k
  · subst hk
    simp [ManagedState.positionAccount, hp]
  · simp [ManagedState.positionAccount, hp, hk, AList.lookup_insert_ne hk]

theorem positionAccount_erase {k : VenueEntryKey × Pubkey}
    (hp : s'.positions = s.positions.erase k) :
    s'.positionAccount = update s.positionAccount k none := by
  funext k'
  by_cases hk : k' = k
  · subst hk
    simp [ManagedState.positionAccount, hp]
  · simp [ManagedState.positionAccount, hp, hk, AList.lookup_erase_ne hk]

/-- Recording another amount keeps the account of a position. -/
theorem positionAccount_record {k : VenueEntryKey × Pubkey} {p : Position} {amount : ℕ}
    (hfound : s.positions.lookup k = some p)
    (hp : s'.positions = s.positions.insert k { p with amount := amount }) :
    s'.positionAccount = s.positionAccount := by
  rw [positionAccount_insert hp]
  refine update_eq_self_iff.2 ?_
  simp [ManagedState.positionAccount, hfound]

/-- An opened position has an account that was free. -/
theorem of_opened (h : Custodial s) (hm : Moved s.core s'.core) {k : VenueEntryKey × Pubkey}
    {p : Position} {program : TokenProgram}
    (token : s.core.token.initializeAccount program p.tokenAccount k.2 s.core.key =
      .ok s'.core.token) (hp : s'.positions = s.positions.insert k p) : Custodial s' := by
  have hkey : s'.core.key = s.core.key := congrArg Terms.key hm.terms
  have hun := initializeAccount_untouched token s.core.key
  obtain ⟨⟨hfree, -⟩, htoken⟩ := initializeAccount_ok token
  -- accounts that exist are elsewhere
  have hfresh : ∀ m, ¬s.core.token.Holds p.tokenAccount m s.core.key := by
    rintro m ⟨x, hx, -⟩
    rw [hfree] at hx
    cases hx
  have hne : ∀ k' a, s.positionAccount k' = some a → a ≠ p.tokenAccount := by
    rintro k' a hk' rfl
    exact hfresh _ (h.holds hk')
  have haccount := positionAccount_insert hp
  refine ⟨(hm.refines h.ledgered.wellFormed).ledgered h.ledgered, by rw [hm.terms]; exact h.apart,
    fun k' a hk' => ?_, fun k' a hk' => ?_, fun k' k'' a hk' hk'' => ?_⟩
  · rw [haccount, update_apply] at hk'
    rw [hkey]
    split at hk'
    · next he =>
      obtain rfl := Option.some.inj hk'
      subst he
      exact initializeAccount_alone token
    · exact hun.alone _ _ (h.alone k' a hk')
  · rw [haccount, update_apply] at hk'
    rw [hm.terms]
    split at hk'
    · obtain rfl := Option.some.inj hk'
      intro hu
      obtain ⟨m, halone⟩ := h.valid.alone_used hu
      exact hfresh m halone.holds
    · exact h.unused k' a hk'
  · rw [haccount, update_apply] at hk' hk''
    split at hk' <;> split at hk''
    · next he he' => rw [he, he']
    · obtain rfl := Option.some.inj hk'
      exact absurd rfl (hne k'' _ hk'')
    · obtain rfl := Option.some.inj hk''
      exact absurd rfl (hne k' _ hk')
    · exact h.distinct k' k'' a hk' hk''

/-- A closed position's account was its own. -/
theorem of_closed (h : Custodial s) (hm : Moved s.core s'.core) {k : VenueEntryKey × Pubkey}
    {p : Position} (hfound : s.positions.lookup k = some p)
    (token : s.core.token.closeAccount p.tokenAccount s.core.key = .ok s'.core.token)
    (hp : s'.positions = s.positions.erase k) : Custodial s' := by
  have hkey : s'.core.key = s.core.key := congrArg Terms.key hm.terms
  obtain ⟨-, -, -, htoken⟩ := closeAccount_ok token
  have haccount := positionAccount_erase hp
  have hclosed : s.positionAccount k = some p.tokenAccount := by
    simp [ManagedState.positionAccount, hfound]
  -- what is still a position was one before, and another one
  have hkept : ∀ k' a, s'.positionAccount k' = some a → k' ≠ k ∧ s.positionAccount k' = some a := by
    intro k' a hk'
    rw [haccount, update_apply] at hk'
    split at hk'
    · cases hk'
    · next he => exact ⟨he, hk'⟩
  refine ⟨(hm.refines h.ledgered.wellFormed).ledgered h.ledgered, by rw [hm.terms]; exact h.apart,
    fun k' a hk' => ?_, fun k' a hk' => ?_, fun k' k'' a hk' hk'' => ?_⟩
  · obtain ⟨hne, hk'⟩ := hkept k' a hk'
    rw [hkey]
    obtain ⟨x, hx, hxm⟩ := h.alone k' a hk'
    refine ⟨x, ?_, hxm⟩
    rw [htoken, ← hx]
    -- positions have accounts of their own, so the closed one is no other
    refine update_of_ne ?_ _ _
    rintro rfl
    exact hne (h.distinct k' k _ hk' hclosed)
  · rw [hm.terms]
    exact h.unused k' a (hkept k' a hk').2
  · exact h.distinct k' k'' a (hkept k' a hk').2 (hkept k'' a hk'').2

theorem execVenue (h : Custodial s) {i : VenueInstruction} (he : execVenue s i = .ok s') :
    Custodial s' := by
  have hm := execVenue_moved h he
  cases execVenue_effect h.valid.coherent he with
  | still recorded token positions =>
    exact h.of_shape hm (by rw [token]; exact .refl _)
      (by funext k; simp only [ManagedState.positionAccount, positions])
  | opened fresh token asset empty positions => exact h.of_opened hm token positions
  | deployed found asset source token balance positions =>
    exact h.of_shape hm token.shape (positionAccount_record found positions)
  | pulled found asset target token balance left positions =>
    exact h.of_shape hm token.shape (positionAccount_record found positions)
  | closed found empty token positions => exact h.of_closed hm found token positions
  | withdrew venue held token positions =>
    exact h.of_shape hm token.shape
      (by funext k; simp only [ManagedState.positionAccount, positions])

end Custodial

/-- The action makes no managed call. -/
def ManagedAction.Unmanaged : ManagedAction → Prop
  | .manageVault .. => False
  | _ => True

instance : DecidablePred ManagedAction.Unmanaged
  | .manageVault .. => inferInstanceAs (Decidable False)
  | .core _ | .venue _ | .policy _ => inferInstanceAs (Decidable True)

/-- What a transaction is called in the order book, to which venues, policies and managed calls
are nothing. -/
def ManagedAction.event : ManagedAction → Event Pubkey
  | .core b => b.event
  | .venue _ | .policy _ | .manageVault .. => .configured

/-- **Everything but a managed call keeps the custody.** -/
theorem Custodial.execManaged (h : Custodial s) {b : ManagedAction} (hb : b.Unmanaged)
    (he : execManaged verify s b = .ok s') : Custodial s' := by
  cases b with
  | core b =>
    simp only [AsyncVault.execManaged, bind_eq_ok, pure_eq_ok] at he
    obtain ⟨c, hc, rfl⟩ := he
    exact h.of_spared (h.ledgered.exec hc) (exec_spared h.ledgered.wellFormed hc) rfl
  | venue i => exact h.execVenue he
  | policy i =>
    obtain ⟨policies, pending, rfl⟩ := execPolicy_still (i := i) he
    exact h.of_spared h.ledgered (.of_terms rfl (.of_eq rfl) fun _ _ => id) rfl
  | manageVault => exact hb.elim

theorem ManagedState.Created.custodial (h : s.Created) : Custodial s := by
  have hnone : ∀ k, s.positionAccount k = none := fun k => by
    simp [positionAccount, h.positions]
  have hassets : ∀ m, s.core.terms.assets m = none := by
    obtain ⟨w, ctx, args, hcreate⟩ := h.core
    obtain ⟨-, -, -, hassets, -⟩ := createVault_state hcreate
    simp [VaultState.terms, hassets]
  refine ⟨h.core.ledgered, fun m x hx => ?_, fun k a hk => ?_, fun k a hk => ?_,
    fun k k' a hk _ => ?_⟩
  · rw [hassets] at hx
    cases hx
  all_goals
    rw [hnone] at hk
    cases hk

/-- **In a run without managed calls the vault keeps its tokens.** -/
theorem ManagedRun.custodial (hrun : ManagedRun verify s₀ tr s) (h₀ : s₀.Created)
    (hu : ∀ x ∈ tr, x.act.Unmanaged) : Custodial s :=
  hrun.invariant_of_forall (Q := fun x => x.act.Unmanaged)
    (fun _ _ _ hs hb he => hs.execManaged hb he) hu h₀.custodial

end AsyncVault
