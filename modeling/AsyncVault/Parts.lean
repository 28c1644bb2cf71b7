/-
AsyncVault/Parts.lean

What the shared parts of the request instructions do.

Request handlers are sequences of the same few parts: settle the share mint,
advance or extend a queue, move a reservation, count the pending requests.  Each
part has one lemma here that says what it did to the state; the handlers'
specifications cite these and look inside no part again.

A queue operation changes nothing but counters (`Requeued`): the terms of the
vault and its order book are the same afterwards.
-/
import AsyncVault.BookView

namespace AsyncVault

open Checked TokenLedger KeyedStore OrderBook Function

variable {s s' s'' : VaultState} {m k : Pubkey} {r : Request} {n : ℕ}
variable {context : RequestShareMintContext} {remaining : List AccountInfo}

/-! ### Adjusting counters -/

/-- Only counters changed: terms, tokens and requests are the same, and the order
book is `b`. -/
structure Adjusted (s s' : VaultState) (b : Book Pubkey) : Prop where
  terms : s'.terms = s.terms
  token : s'.token = s.token
  requests : s'.requests = s.requests
  book : s'.book = b

theorem Adjusted.refl (s : VaultState) : Adjusted s s s.book := ⟨rfl, rfl, rfl, rfl⟩

theorem Adjusted.trans {b b' : Book Pubkey} (h : Adjusted s s' b) (h' : Adjusted s' s'' b') :
    Adjusted s s'' b' :=
  ⟨h'.terms.trans h.terms, h'.token.trans h.token, h'.requests.trans h.requests, h'.book⟩

/-- The state with other tokens and requests. -/
def VaultState.put (s : VaultState) (token : Ledger Pubkey) (requests : Store Pubkey Request) :
    VaultState :=
  { s with token := token, requests := requests }

/-- The state with another vault account. -/
def VaultState.withVault (s : VaultState) (v : Vault) : VaultState := { s with vault := v }

/-- What tokens and requests say is read off anew, the rest of the book stays. -/
theorem Adjusted.book_put {b : Book Pubkey} (h : Adjusted s s' b) (token : Ledger Pubkey)
    (requests : Store Pubkey Request) :
    (s'.put token requests).book =
      { b with
        orders := mapVal Request.order requests
        escrow := (s'.put token requests).book.escrow
        supply := (s'.put token requests).book.supply
        unit := (s'.put token requests).book.unit } := by
  rw [← h.book]
  rfl

/-- The balances of the escrows are no counters. -/
theorem Adjusted.escrow {b : Book Pubkey} (h : Adjusted s s' b) :
    s'.book.escrow = s.book.escrow := by
  simp only [VaultState.book, h.terms, h.token]

theorem Adjusted.bookAt {b : Book Pubkey} (h : Adjusted s s' b) (esc : Pubkey → ℕ) :
    s'.bookAt esc = { b with escrow := esc } :=
  VaultState.bookAt_of_book h.book esc

/-- The same at other escrow balances. -/
theorem Adjusted.bookAt_put {b : Book Pubkey} (h : Adjusted s s' b) (token : Ledger Pubkey)
    (requests : Store Pubkey Request) (esc : Pubkey → ℕ) :
    (s'.put token requests).bookAt esc =
      { b with
        orders := mapVal Request.order requests
        escrow := esc
        supply := (s'.put token requests).book.supply
        unit := (s'.put token requests).book.unit } := by
  rw [VaultState.bookAt, h.book_put]

/-! ### The share mint -/

/-- The context of a request for a share mint. -/
def VaultState.requestContext (s : VaultState) (m : Pubkey) : RequestShareMintContext where
  consumedAccounts := if s.trancheConfig.isSome then 1 else 0
  trancheNav := s.trancheConfig.map fun tc => tc.navOf m
  trancheInfo := s.trancheConfig.map TrancheConfig.requestInfo

/-- The price of a share mint: the tranche's recorded NAV when there is a positive
one, the vault's otherwise. -/
def VaultState.price (s : VaultState) (m : Pubkey) : ℕ :=
  settlementNav (s.requestContext m).trancheNav s.vault.nav

theorem settlementNav_some (nav vaultNav : ℕ) :
    settlementNav (some nav) vaultNav = if 0 < nav then nav else vaultNav := by
  unfold settlementNav
  by_cases h : 0 < nav <;> simp [Option.filter, h]

theorem price_eq_book (s : VaultState) (m : Pubkey) : s.price m = s.book.price m := by
  unfold VaultState.price VaultState.requestContext VaultState.book Book.price
  cases s.trancheConfig with
  | none => simp [settlementNav]
  | some tc => simp [settlementNav_some]

theorem loadTrancheConfig_ok {info : AccountInfo} {tc : TrancheConfig}
    (h : s.loadTrancheConfig info = .ok tc) : s.trancheConfig = some tc := by
  simp only [VaultState.loadTrancheConfig, bind_eq_ok, require_eq_ok, okOr_eq_ok] at h
  obtain ⟨-, -, h⟩ := h
  exact h

theorem writableTrancheConfig_ok {info : Option AccountInfo} {tc : TrancheConfig}
    (h : writableTrancheConfig s info = .ok tc) : s.trancheConfig = some tc := by
  simp only [writableTrancheConfig, bind_eq_ok, okOr_eq_ok, ensure_eq_ok] at h
  obtain ⟨info, -, -, -, h⟩ := h
  exact loadTrancheConfig_ok h

/-- An accepted share mint is one of the vault's, and the context is the one of
that mint. -/
theorem validateRequestShareMint_ok (hv : s.terms.Coherent)
    (h : validateRequestShareMint s m remaining = .ok context) :
    m ∈ s.terms.shareMints ∧ context = s.requestContext m := by
  unfold validateRequestShareMint at h
  cases htc : s.trancheConfig with
  | none =>
    -- on a plain vault there is one share mint
    have hplain : s.vault.trancheConfig = none := hv.plain (by simp [VaultState.terms, htc])
    simp only [hplain, bind_eq_ok, ensure_eq_ok, pure_eq_ok] at h
    obtain ⟨-, rfl, rfl⟩ := h
    refine ⟨by simp [Terms.shareMints, VaultState.terms, htc], ?_⟩
    simp [VaultState.requestContext, htc]
  | some tc =>
    have hpda : s.vault.trancheConfig = some s.trancheConfigPda :=
      (hv.tranched tc.terms (by simp [VaultState.terms, htc])).1
    simp only [hpda, bind_eq_ok, ensure_eq_ok, okOr_eq_ok, pure_eq_ok] at h
    obtain ⟨info, -, -, -, -, -, tc', hload, -, -, nav, hnav, rfl⟩ := h
    obtain rfl : tc' = tc := Option.some.inj ((loadTrancheConfig_ok hload).symm.trans htc)
    -- a mint that is neither tranche has no NAV
    have hmem : m = tc'.seniorShareMint ∨ m = tc'.juniorShareMint := by
      by_contra hne
      rw [not_or] at hne
      simp [hne.1, hne.2] at hnav
    refine ⟨by simpa [Terms.shareMints, VaultState.terms, htc, TrancheConfig.terms] using hmem, ?_⟩
    have hnav' : nav = tc'.navOf m := by
      unfold TrancheConfig.navOf
      split at hnav
      · next hs => simpa [hs] using (pure_eq_ok.1 hnav).symm
      · next hs =>
        have hj := hmem.resolve_left hs
        rw [if_pos hj, pure_eq_ok] at hnav
        rw [if_neg hs, if_pos hj, hnav]
    simp [VaultState.requestContext, htc, hnav']

/-! ### Queues -/

/-- A tranche configuration without its queue counters. -/
def TrancheConfig.unqueued (tc : TrancheConfig) : TrancheConfig :=
  { tc with
    seniorSubscription := ⟨0, 0⟩
    seniorRedemption := ⟨0, 0⟩
    juniorSubscription := ⟨0, 0⟩
    juniorRedemption := ⟨0, 0⟩ }

theorem TrancheConfig.setLane_unqueued (tc : TrancheConfig) (m : Pubkey) (t : RequestType)
    (q : FifoQueue) : (tc.setLane m t q).unqueued = tc.unqueued := by
  unfold setLane
  split <;> cases t <;> rfl

/-- Only queue counters changed. -/
def Requeued (s s' : VaultState) : Prop :=
  ∃ ext tc, s' = { s with extensions := ext, trancheConfig := tc } ∧
    tc.map TrancheConfig.unqueued = s.trancheConfig.map TrancheConfig.unqueued

theorem Requeued.refl (s : VaultState) : Requeued s s := ⟨_, _, rfl, rfl⟩

/-- Whatever ignores the queues reads the same. -/
theorem Requeued.map {α : Type} (h : Requeued s s') (f : TrancheConfig → α)
    (hf : ∀ tc, f tc.unqueued = f tc) : s'.trancheConfig.map f = s.trancheConfig.map f := by
  obtain ⟨ext, tc, rfl, htc⟩ := h
  have hmap : ∀ o : Option TrancheConfig, o.map f = (o.map TrancheConfig.unqueued).map f := by
    rintro (- | tc)
    · rfl
    · simp [hf]
  rw [hmap, htc, ← hmap]

theorem Requeued.terms (h : Requeued s s') : s'.terms = s.terms := by
  have ht := h.map TrancheConfig.terms fun _ => rfl
  obtain ⟨ext, tc, rfl, -⟩ := h
  simp only [VaultState.terms] at ht ⊢
  rw [ht]

theorem Requeued.requestContext (h : Requeued s s') (m : Pubkey) :
    s'.requestContext m = s.requestContext m := by
  have hi := h.map TrancheConfig.requestInfo fun _ => rfl
  have hn := h.map (fun tc => tc.navOf m) fun _ => rfl
  have hs : s'.trancheConfig.isSome = s.trancheConfig.isSome := by
    have := congrArg Option.isSome hi
    simpa using this
  simp only [VaultState.requestContext, hi, hn, hs]

theorem Requeued.book (h : Requeued s s') : s'.book = s.book := by
  have ht := h.terms
  have hc := fun m => h.map (fun tc => tc.supplyOf m) fun _ => rfl
  have hn := fun m => h.map (fun tc => tc.navOf m) fun _ => rfl
  have hm := h.map TrancheConfig.tranches fun _ => rfl
  obtain ⟨ext, tc, rfl, -⟩ := h
  simp only at hc hn hm
  simp only [VaultState.book, ht, hc, hn, hm]
  rfl

theorem Requeued.adjusted (h : Requeued s s') : Adjusted s s' s.book where
  terms := h.terms
  book := h.book
  token := by
    obtain ⟨_, _, rfl, -⟩ := h
    rfl
  requests := by
    obtain ⟨_, _, rfl, -⟩ := h
    rfl

theorem Requeued.vault (h : Requeued s s') : s'.vault = s.vault := by
  obtain ⟨_, _, rfl, -⟩ := h
  rfl

theorem nextRequestId_ok {t : RequestType} {id : Option ℕ}
    (h : nextRequestId s context m t remaining = .ok (s', id)) : Requeued s s' := by
  unfold nextRequestId at h
  split at h
  · split at h
    · simp only [bind_eq_ok, TrancheConfig.nextQueueRequestId, pure_eq_ok, Prod.mk.injEq] at h
      obtain ⟨tc, htc, -, ⟨q, -, rfl⟩, rfl, -⟩ := h
      refine ⟨s.extensions, _, rfl, ?_⟩
      simp [writableTrancheConfig_ok htc, TrancheConfig.setLane_unqueued]
    · obtain ⟨rfl, -⟩ := Prod.mk.inj (pure_eq_ok.1 h)
      exact .refl s
  · obtain ⟨rfl, -⟩ := Prod.mk.inj (pure_eq_ok.1 h)
    exact ⟨_, _, rfl, rfl⟩

theorem advanceQueue_ok (h : advanceQueue s context m r remaining = .ok s') : Requeued s s' := by
  unfold advanceQueue at h
  split at h
  · split at h
    · simp only [bind_eq_ok, okOr_eq_ok, TrancheConfig.checkAndAdvanceQueue, pure_eq_ok] at h
      obtain ⟨tc, htc, id, -, -, ⟨q, -, q', -, rfl⟩, rfl⟩ := h
      refine ⟨s.extensions, _, rfl, ?_⟩
      simp [writableTrancheConfig_ok htc, TrancheConfig.setLane_unqueued]
    · obtain rfl := pure_eq_ok.1 h
      exact .refl s
  · simp only [bind_eq_ok, pure_eq_ok] at h
    obtain ⟨ext, -, rfl⟩ := h
    exact ⟨_, _, rfl, rfl⟩

/-! ### Reservations -/

/-- The account named for an asset is that asset's: none is needed for the primary
asset, the registered one for any other. -/
def VaultState.Names (s : VaultState) (assetMint : Pubkey) (vaultAsset : Option Pubkey) : Prop :=
  s.vault.assetMint = assetMint ∨ s.vault.assetMint ≠ assetMint ∧ vaultAsset = some assetMint

theorem VaultState.Names.of_terms {vaultAsset : Option Pubkey} (h : s.Names m vaultAsset)
    (ht : s'.terms = s.terms) : s'.Names m vaultAsset := by
  unfold VaultState.Names
  rwa [show s'.vault.assetMint = s.vault.assetMint from congrArg Terms.assetMint ht]

theorem secondaryAsset_ok (hv : s.terms.Coherent) {account : Option Pubkey} {va : VaultAsset}
    (h : s.secondaryAsset account m = .ok va) : account = some m ∧ s.vaultAssets m = some va := by
  simp only [VaultState.secondaryAsset, VaultAsset.assertMatches, bind_eq_ok, okOr_eq_ok,
    ensure_eq_ok, pure_eq_ok] at h
  obtain ⟨m', rfl, va', hva, -, ⟨-, -, hm⟩, rfl⟩ := h
  obtain ⟨-, hasset, -⟩ := hv.assets m' va'.terms (by simp [VaultState.terms, hva])
  obtain rfl : m' = m := hasset.symm.trans hm
  exact ⟨rfl, hva⟩

/-- The accepted pending vault is the escrow account of the asset. -/
theorem checkPendingVault_ok (hv : s.terms.Coherent) {vaultAsset : Option Pubkey}
    {pendingVault : Pubkey} {u : Unit}
    (h : checkPendingVault s m vaultAsset pendingVault = .ok u) :
    s.terms.pendingVaultOf m = some pendingVault ∧ s.Names m vaultAsset := by
  unfold checkPendingVault at h
  split at h
  · next hp =>
    have hm : s.vault.assetMint = m := by simpa [Vault.isPrimaryAsset] using hp
    obtain rfl := ensure_eq_ok.1 h
    exact ⟨by simp [Terms.pendingVaultOf, VaultState.terms, hm], .inl hm⟩
  · next hp =>
    have hm : s.vault.assetMint ≠ m := by simpa [Vault.isPrimaryAsset] using hp
    simp only [bind_eq_ok, VaultAsset.assertPendingVault, ensure_eq_ok] at h
    obtain ⟨va, hva, rfl⟩ := h
    obtain ⟨rfl, hva'⟩ := secondaryAsset_ok hv hva
    exact ⟨by simp [Terms.pendingVaultOf, VaultState.terms, hm, hva', VaultAsset.terms],
      .inr ⟨hm, rfl⟩⟩

theorem adjusted_primary (hm : s.vault.assetMint = m) (n : ℕ) :
    Adjusted s { s with vault := { s.vault with pendingDepositAmount := n } }
      { s.book with reserved := update s.book.reserved m n } where
  terms := rfl
  token := rfl
  requests := rfl
  book := by
    refine Book.ext rfl rfl (funext fun m' => ?_) rfl rfl rfl rfl rfl rfl rfl rfl rfl
    simp only [VaultState.book, VaultState.reserved, update_apply, hm]
    by_cases hmm : m = m'
    · simp [hmm]
    · simp [hmm, Ne.symm hmm]

theorem adjusted_secondary {va : VaultAsset} (hm : s.vault.assetMint ≠ m)
    (hva : s.vaultAssets m = some va) (n : ℕ) :
    Adjusted s
      { s with
        vaultAssets := update s.vaultAssets m (some { va with pendingDepositAmount := n }) }
      { s.book with reserved := update s.book.reserved m n } := by
  have hterms : VaultState.terms { s with
      vaultAssets := update s.vaultAssets m (some { va with pendingDepositAmount := n }) } =
      s.terms := by
    simp only [VaultState.terms, Terms.mk.injEq, true_and]
    funext m'
    by_cases hmm : m' = m
    · subst hmm
      simp [hva, VaultAsset.terms]
    · simp [hmm]
  refine ⟨hterms, rfl, rfl, ?_⟩
  simp only [VaultState.book, hterms, Book.mk.injEq, true_and, and_true]
  funext m'
  simp only [VaultState.reserved, update_apply]
  by_cases hmm : m' = m
  · subst hmm
    simp [hm]
  · simp [hmm]

theorem reserved_primary (hm : s.vault.assetMint = m) :
    s.reserved m = s.vault.pendingDepositAmount := if_pos hm

theorem reserved_secondary {va : VaultAsset} (hm : s.vault.assetMint ≠ m)
    (hva : s.vaultAssets m = some va) : s.reserved m = va.pendingDepositAmount := by
  simp [VaultState.reserved, hm, hva]

theorem addPendingDeposit_ok {vaultAsset : Option Pubkey}
    (h : addPendingDeposit s m vaultAsset n = .ok s') (hn : s.Names m vaultAsset) :
    Adjusted s s'
      { s.book with reserved := update s.book.reserved m (s.book.reserved m + n) } := by
  unfold addPendingDeposit at h
  rcases hn with hm | ⟨hm, rfl⟩
  · rw [if_pos (show s.vault.isPrimaryAsset m = true by simp [Vault.isPrimaryAsset, hm])] at h
    simp only [bind_eq_ok, add_eq_ok, pure_eq_ok] at h
    obtain ⟨p, ⟨-, rfl⟩, rfl⟩ := h
    rw [show s.book.reserved m = _ from reserved_primary hm]
    exact adjusted_primary hm _
  · rw [if_neg (show ¬s.vault.isPrimaryAsset m = true by simp [Vault.isPrimaryAsset, hm])] at h
    simp only [bind_eq_ok, okOr_eq_ok, add_eq_ok, pure_eq_ok] at h
    obtain ⟨m', hm', va, hva, p, ⟨-, rfl⟩, rfl⟩ := h
    obtain rfl := Option.some.inj hm'
    rw [show s.book.reserved m = _ from reserved_secondary hm hva]
    exact adjusted_secondary hm hva _

theorem subPendingDeposit_ok {vaultAsset : Option Pubkey}
    (h : subPendingDeposit s m vaultAsset n = .ok s') (hn : s.Names m vaultAsset) :
    Adjusted s s'
      { s.book with reserved := update s.book.reserved m (s.book.reserved m - n) } := by
  unfold subPendingDeposit at h
  rcases hn with hm | ⟨hm, rfl⟩
  · rw [if_pos (show s.vault.isPrimaryAsset m = true by simp [Vault.isPrimaryAsset, hm])] at h
    simp only [bind_eq_ok, sub_eq_ok, pure_eq_ok] at h
    obtain ⟨p, ⟨-, rfl⟩, rfl⟩ := h
    rw [show s.book.reserved m = _ from reserved_primary hm]
    exact adjusted_primary hm _
  · rw [if_neg (show ¬s.vault.isPrimaryAsset m = true by simp [Vault.isPrimaryAsset, hm])] at h
    simp only [bind_eq_ok, okOr_eq_ok, sub_eq_ok, pure_eq_ok] at h
    obtain ⟨m', hm', va, hva, p, ⟨-, rfl⟩, rfl⟩ := h
    obtain rfl := Option.some.inj hm'
    rw [show s.book.reserved m = _ from reserved_secondary hm hva]
    exact adjusted_secondary hm hva _

/-! ### Counting -/

theorem incrementPendingRequests_ok (h : incrementPendingRequests s = .ok s') :
    Adjusted s s' { s.book with openCount := s.book.openCount + 1 } := by
  simp only [incrementPendingRequests, bind_eq_ok, add_eq_ok, pure_eq_ok] at h
  obtain ⟨_, ⟨-, rfl⟩, rfl⟩ := h
  exact ⟨rfl, rfl, rfl, rfl⟩

theorem decrementPendingRequests_ok (h : decrementPendingRequests s = .ok s') :
    Adjusted s s' { s.book with openCount := s.book.openCount - 1 } := by
  simp only [decrementPendingRequests, bind_eq_ok, sub_eq_ok, pure_eq_ok] at h
  obtain ⟨_, ⟨-, rfl⟩, rfl⟩ := h
  exact ⟨rfl, rfl, rfl, rfl⟩

end AsyncVault
