/-
AsyncVault/BookView.lean

The vault as an order book.

`VaultState.book` reads an `OrderBook.Book` off the state of a vault: every
request account is an order, the counters of the vault account, of the
secondary assets and of the tranche configuration are the book's counters, and
the token ledger supplies escrow balances and live supplies.

The lemmas say how the two parts read off the token ledger move: escrow balances
(`escrow_mono`, `escrow_moved`) and supplies of share mints (`supply_eq`,
`supply_add`, `supply_sub`).
-/
import AsyncVault.Terms
import AsyncVault.Lib.OrderBookLaws

namespace AsyncVault

open TokenLedger KeyedStore OrderBook Function

/-! ### The view -/

def RequestType.side : RequestType → Side
  | .deposit => .deposit
  | .redeem => .redeem

def RequestState.stage : RequestState → Stage
  | .pending => .pending
  | .claimable => .claimable
  | .canceled => .canceled

/-- A request as an order. -/
def Request.order (r : Request) : Order Pubkey where
  owner := r.owner
  side := r.requestType.side
  stage := r.requestState.stage
  asset := r.assetMintAddress
  share := r.shareMintAddress
  amount := r.amount

namespace TrancheConfig

/-- The recorded NAV of a tranche, by its share mint. -/
def navOf (tc : TrancheConfig) (m : Pubkey) : ℕ :=
  if m = tc.seniorShareMint then tc.seniorNav
  else if m = tc.juniorShareMint then tc.juniorNav
  else 0

/-- The cached supply of a tranche, by its share mint. -/
def supplyOf (tc : TrancheConfig) (m : Pubkey) : ℕ :=
  if m = tc.seniorShareMint then tc.seniorSupply
  else if m = tc.juniorShareMint then tc.juniorSupply
  else 0

def tranches (tc : TrancheConfig) : Tranches Pubkey :=
  ⟨tc.seniorShareMint, tc.juniorShareMint, tc.minJuniorRatioBps⟩

variable {tc : TrancheConfig}

@[simp] theorem navOf_senior (tc : TrancheConfig) : tc.navOf tc.seniorShareMint = tc.seniorNav :=
  if_pos rfl

@[simp] theorem supplyOf_senior (tc : TrancheConfig) :
    tc.supplyOf tc.seniorShareMint = tc.seniorSupply := if_pos rfl

theorem navOf_junior (h : tc.seniorShareMint ≠ tc.juniorShareMint) :
    tc.navOf tc.juniorShareMint = tc.juniorNav := by
  rw [navOf, if_neg h.symm, if_pos rfl]

theorem supplyOf_junior (h : tc.seniorShareMint ≠ tc.juniorShareMint) :
    tc.supplyOf tc.juniorShareMint = tc.juniorSupply := by
  rw [supplyOf, if_neg h.symm, if_pos rfl]

end TrancheConfig

namespace VaultState

/-- The deposits reserved in an asset: counted on the vault for the primary
asset, on the `VaultAsset` account otherwise. -/
def reserved (s : VaultState) (m : Pubkey) : ℕ :=
  if s.vault.assetMint = m then s.vault.pendingDepositAmount
  else ((s.vaultAssets m).map VaultAsset.pendingDepositAmount).getD 0

def book (s : VaultState) : Book Pubkey where
  orders := mapVal Request.order s.requests
  openCount := s.vault.pendingAsyncRequests
  reserved := s.reserved
  escrow := fun m => ((s.terms.pendingVaultOf m).map s.token.balance).getD 0
  supply := fun m => if m ∈ s.terms.shareMints then s.token.supply m else 0
  cached := fun m => (s.trancheConfig.map fun tc => tc.supplyOf m).getD 0
  recorded := fun m => (s.trancheConfig.map fun tc => tc.navOf m).getD 0
  unit := fun m => if m ∈ s.terms.shareMints then s.token.unit m else 1
  tranches := s.trancheConfig.map TrancheConfig.tranches
  share := s.vault.shareMint
  nav := s.vault.nav
  assets := s.vault.totalAssetBalance

/-- The book with other escrow balances. -/
def bookAt (s : VaultState) (esc : Pubkey → ℕ) : Book Pubkey := { s.book with escrow := esc }

variable {s s' : VaultState} {k m a : Pubkey} {r : Request} {n : ℕ}

theorem bookAt_of_book {b : Book Pubkey} (h : s.book = b) (esc : Pubkey → ℕ) :
    s.bookAt esc = { b with escrow := esc } := by
  rw [bookAt, h]

theorem lookup_book (h : s.requests.lookup k = some r) : s.book.orders.lookup k = some r.order := by
  simp [book, h]

theorem lookup_book_none (h : s.requests.lookup k = none) : s.book.orders.lookup k = none := by
  simp [book, h]

/-! ### Tallies -/

/-- The amounts of the requests of a type, in a state, that satisfy `p`. -/
def amounts (s : VaultState) (t : RequestType) (st : RequestState) (p : Request → Prop)
    [DecidablePred p] : ℕ :=
  total (fun r => if r.requestType = t ∧ r.requestState = st ∧ p r then r.amount else 0) s.requests

/-- Amounts of the pending deposit requests of an asset. -/
def pendingDeposits (s : VaultState) (m : Pubkey) : ℕ :=
  s.amounts .deposit .pending (fun r => r.assetMintAddress = m)

/-- Amounts of the claimable redeem requests of an asset. -/
def claimableRedeems (s : VaultState) (m : Pubkey) : ℕ :=
  s.amounts .redeem .claimable (fun r => r.assetMintAddress = m)

/-- Shares of the claimable deposit requests of a share mint. -/
def claimableDeposits (s : VaultState) (m : Pubkey) : ℕ :=
  s.amounts .deposit .claimable (fun r => r.shareMintAddress = m)

/-- Shares of the pending redeem requests of a share mint. -/
def pendingRedeems (s : VaultState) (m : Pubkey) : ℕ :=
  s.amounts .redeem .pending (fun r => r.shareMintAddress = m)

/-- How many requests are pending. -/
def pendingRequests (s : VaultState) : ℕ :=
  total (fun r => if r.requestState = .pending then 1 else 0) s.requests

/-- Live supply, shares of claimable deposits and shares of pending redemptions. -/
def committedShares (s : VaultState) (m : Pubkey) : ℕ :=
  s.token.supply m + s.claimableDeposits m + s.pendingRedeems m

theorem inAsset_order (t : RequestType) (st : RequestState) (r : Request) :
    r.order.inAsset t.side st.stage m =
      if r.requestType = t ∧ r.requestState = st ∧ r.assetMintAddress = m then r.amount else 0 := by
  unfold Order.inAsset Request.order
  cases t <;> cases st <;> cases r.requestType <;> cases r.requestState <;>
    simp [RequestType.side, RequestState.stage]

theorem inShare_order (t : RequestType) (st : RequestState) (r : Request) :
    r.order.inShare t.side st.stage m =
      if r.requestType = t ∧ r.requestState = st ∧ r.shareMintAddress = m then r.amount else 0 := by
  unfold Order.inShare Request.order
  cases t <;> cases st <;> cases r.requestType <;> cases r.requestState <;>
    simp [RequestType.side, RequestState.stage]

theorem book_pendingDeposits (s : VaultState) (m : Pubkey) :
    s.book.pendingDeposits m = s.pendingDeposits m := by
  simp only [Book.pendingDeposits, book, total_mapVal]
  exact congrArg (total · s.requests) (funext (inAsset_order .deposit .pending))

theorem book_claimableRedeems (s : VaultState) (m : Pubkey) :
    s.book.claimableRedeems m = s.claimableRedeems m := by
  simp only [Book.claimableRedeems, book, total_mapVal]
  exact congrArg (total · s.requests) (funext (inAsset_order .redeem .claimable))

theorem book_claimableDeposits (s : VaultState) (m : Pubkey) :
    s.book.claimableDeposits m = s.claimableDeposits m := by
  simp only [Book.claimableDeposits, book, total_mapVal]
  exact congrArg (total · s.requests) (funext (inShare_order .deposit .claimable))

theorem book_pendingRedeems (s : VaultState) (m : Pubkey) :
    s.book.pendingRedeems m = s.pendingRedeems m := by
  simp only [Book.pendingRedeems, book, total_mapVal]
  exact congrArg (total · s.requests) (funext (inShare_order .redeem .pending))

theorem book_openOrders (s : VaultState) : s.book.openOrders = s.pendingRequests := by
  simp only [Book.openOrders, book, total_mapVal]
  refine congrArg (total · s.requests) (funext fun r => ?_)
  cases h : r.requestState <;> simp [Order.isOpen, Request.order, h, RequestState.stage]

/-! ### Tranches of the view -/

variable {tc : TrancheConfig}

theorem terms_tranches (htc : s.trancheConfig = some tc) : s.terms.tranches = some tc.terms := by
  simp [terms, htc]

theorem validTranches (hc : s.terms.Coherent) (htc : s.trancheConfig = some tc) :
    s.terms.ValidTranches tc.terms :=
  (hc.tranched _ (terms_tranches htc)).2

theorem senior_ne_junior (hc : s.terms.Coherent) (htc : s.trancheConfig = some tc) :
    tc.seniorShareMint ≠ tc.juniorShareMint :=
  (validTranches hc htc).senior_ne_junior

theorem mem_shareMints (htc : s.trancheConfig = some tc) :
    m ∈ s.terms.shareMints ↔ m = tc.seniorShareMint ∨ m = tc.juniorShareMint := by
  simp [Terms.shareMints, terms_tranches htc, TrancheConfig.terms]

theorem book_cached (htc : s.trancheConfig = some tc) : s.book.cached = tc.supplyOf := by
  funext m
  simp [book, htc]

theorem book_recorded (htc : s.trancheConfig = some tc) : s.book.recorded = tc.navOf := by
  funext m
  simp [book, htc]

theorem book_tranches (htc : s.trancheConfig = some tc) : s.book.tranches = some tc.tranches := by
  simp [book, htc]

theorem book_recached (htc : s.trancheConfig = some tc) (m : Pubkey) (n : ℕ) :
    s.book.recached m n = update s.book.cached m n := by
  simp [Book.recached, book_tranches htc]

/-- A vault without tranches has one share mint. -/
theorem share_of_plain (hm : m ∈ s.terms.shareMints) (hp : s.book.tranches = none) :
    m = s.book.share := by
  have htc : s.trancheConfig = none := Option.map_eq_none_iff.1 hp
  simpa [Terms.shareMints, terms, htc, book] using hm

/-! ### Live supplies -/

theorem unit_eq (hm : s.Minting) (ht : s'.terms = s.terms)
    (hg : Guarded s.key s.token s'.token) : s'.book.unit = s.book.unit := by
  funext m
  simp only [book, ht]
  split
  · next hmem => exact hg.unit m (hm.mintable m hmem)
  · rfl

theorem supply_eq (ht : s'.terms = s.terms)
    (hs : ∀ m ∈ s.terms.shareMints, s'.token.supply m = s.token.supply m) :
    s'.book.supply = s.book.supply := by
  funext m
  simp only [book, ht]
  split
  · next hm => exact hs m hm
  · rfl

theorem supply_of_mem (hm : m ∈ s.terms.shareMints) : s.book.supply m = s.token.supply m := by
  simp [book, hm]

theorem book_committed (hm : m ∈ s.terms.shareMints) :
    s.book.committed m = s.committedShares m := by
  rw [Book.committed, supply_of_mem hm, book_claimableDeposits, book_pendingRedeems]
  rfl

/-- Creating share tokens. -/
theorem supply_add (ht : s'.terms = s.terms)
    (hm : m ∈ s.terms.shareMints) (h : Issued s.token s'.token m n) :
    s'.book.supply = update s.book.supply m (s.book.supply m + n) := by
  funext m'
  by_cases hmm : m' = m
  · subst hmm
    rw [update_self, supply_of_mem (by rwa [ht]), supply_of_mem hm, h.supply]
  · rw [update_of_ne hmm]
    simp only [book, ht, h.supply_of_ne m' hmm]

/-- Destroying share tokens. -/
theorem supply_sub (ht : s'.terms = s.terms) (hm : m ∈ s.terms.shareMints)
    (hsup : s'.token.supply m + n = s.token.supply m)
    (hother : ∀ m', m' ≠ m → s'.token.supply m' = s.token.supply m') :
    s'.book.supply = update s.book.supply m (s.book.supply m - n) ∧ n ≤ s.book.supply m := by
  refine ⟨?_, by rw [supply_of_mem hm]; omega⟩
  funext m'
  by_cases hmm : m' = m
  · subst hmm
    rw [update_self, supply_of_mem (by rwa [ht]), supply_of_mem hm]
    omega
  · rw [update_of_ne hmm]
    simp only [book, ht, hother m' hmm]

/-! ### Escrow balances -/

theorem escrow_of_some (h : s.terms.pendingVaultOf m = some a) :
    s.book.escrow m = s.token.balance a := by
  simp [book, h]

/-- Where no escrow account loses anything, no escrow does. -/
theorem escrow_mono (ht : s'.terms = s.terms)
    (hb : ∀ m a, s.terms.pendingVaultOf m = some a →
      s.token.balance a ≤ s'.token.balance a) : s.book.escrow ≤ s'.book.escrow := by
  intro m
  simp only [book, ht]
  cases ha : s.terms.pendingVaultOf m with
  | none => exact le_rfl
  | some a => exact hb m a ha

/-- Where only the escrow account of `m` may lose anything, only the escrow of `m`
does. -/
theorem escrow_moved {inn out : ℕ} (hv : s.terms.Valid s.token) (ht : s'.terms = s.terms)
    (ha : s.terms.pendingVaultOf m = some a)
    (hm : s.token.balance a + inn ≤ s'.token.balance a + out)
    (hb : ∀ b m', b ≠ a → s.terms.pendingVaultOf m' = some b →
      s.token.balance b ≤ s'.token.balance b) :
    Moved s.book.escrow s'.book.escrow m inn out where
  moved := by
    rw [escrow_of_some ha, escrow_of_some (by rwa [ht])]
    exact hm
  other m' hne := by
    simp only [book, ht]
    cases hb' : s.terms.pendingVaultOf m' with
    | none => exact le_rfl
    | some b =>
      refine hb b m' ?_ hb'
      rintro rfl
      exact hne (hv.pendingVaultOf_inj hb' ha)

/-- Paying out of the escrow of an asset. -/
theorem escrow_spent (hv : s.terms.Valid s.token) (ht : s'.terms = s.terms)
    (ha : s.terms.pendingVaultOf m = some a) (h : Spent s.token s'.token a n) :
    Moved s.book.escrow s'.book.escrow m 0 n :=
  escrow_moved hv ht ha h.balance_src fun b _ hb _ => h.balance_of_ne b hb

/-- Paying into the escrow of an asset from an account that escrows nothing. -/
theorem escrow_received {src dst authority : Pubkey} {program : TokenProgram} {out : ℕ}
    {token : Ledger Pubkey} {y : Mint Pubkey}
    (hv : s.terms.Valid s.token) (ht : s'.terms = s.terms)
    (ha : s.terms.pendingVaultOf m = some dst)
    (hsrc : ∀ m', s.terms.pendingVaultOf m' ≠ some src)
    (hfirst : Spent s.token token src out)
    (h : Transferred token s'.token program src m dst authority n)
    (hy : s.token.mints m = some y) (hfee : y.epochFeeBps = 0) :
    Moved s.book.escrow s'.book.escrow m n 0 := by
  have hne : src ≠ dst := by
    rintro rfl
    exact hsrc m ha
  obtain ⟨y', hy', -, hdst⟩ := h.balance_dst hne
  rw [hfirst.mints, hy, Option.some.injEq] at hy'
  subst hy'
  rw [Mint.transferFee_eq_zero hfee, Nat.sub_zero] at hdst
  refine escrow_moved hv ht ha ?_ fun b m' hb hb' => ?_
  · have := hfirst.balance_of_ne dst hne.symm
    omega
  · have hbs : b ≠ src := by
      rintro rfl
      exact hsrc m' hb'
    exact (hfirst.balance_of_ne b hbs).trans (h.balance_of_ne b hbs hb).ge

end VaultState

end AsyncVault
