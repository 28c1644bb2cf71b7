/-
AsyncVault/ConfigEffects.lean

What configuration does to the order book: nothing.

Most configuration instructions change settings that neither the terms nor the
order book read (`Reconfigured`).  Three do more.  Splitting the vault into
tranches happens before the first request; registering an asset opens an empty
escrow; removing one closes an escrow that holds nothing.
-/
import AsyncVault.ConfigSteps
import AsyncVault.NavEffects

namespace AsyncVault

open Checked TokenLedger KeyedStore OrderBook Function

variable {s s' : VaultState} {v v' : Vault} {authority account m : Pubkey}

/-! ### Settings -/

/-- The two vault accounts differ in settings only. -/
structure Vault.SameBooks (v v' : Vault) : Prop where
  assetMint : v'.assetMint = v.assetMint
  shareMint : v'.shareMint = v.shareMint
  vaultTokenAccount : v'.vaultTokenAccount = v.vaultTokenAccount
  pendingVault : v'.pendingVault = v.pendingVault
  trancheConfig : v'.trancheConfig = v.trancheConfig
  nav : v'.nav = v.nav
  pendingAsyncRequests : v'.pendingAsyncRequests = v.pendingAsyncRequests
  totalAssetBalance : v'.totalAssetBalance = v.totalAssetBalance
  pendingDepositAmount : v'.pendingDepositAmount = v.pendingDepositAmount
  initialized : v'.initialized = false → v.initialized = false
  performanceFeeBps : v.performanceFeeBps = 0 →
    v'.trancheConfig = none ∨ v'.performanceFeeBps = 0

theorem Vault.SameBooks.refl (v : Vault) : v.SameBooks v :=
  ⟨rfl, rfl, rfl, rfl, rfl, rfl, rfl, rfl, rfl, id, .inr⟩

/-- Only settings changed. -/
structure Reconfigured (s s' : VaultState) : Prop where
  key : s'.key = s.key
  trancheConfigPda : s'.trancheConfigPda = s.trancheConfigPda
  trancheConfig : s'.trancheConfig = s.trancheConfig
  vaultAssets : s'.vaultAssets = s.vaultAssets
  requests : s'.requests = s.requests
  token : s'.token = s.token
  vault : s.vault.SameBooks s'.vault

theorem Reconfigured.terms (h : Reconfigured s s') :
    s'.terms = { s.terms with
      initialized := s'.vault.initialized
      performanceFeeBps := s'.vault.performanceFeeBps } := by
  simp only [VaultState.terms, h.key, h.trancheConfigPda, h.trancheConfig, h.vaultAssets,
    h.vault.assetMint, h.vault.shareMint, h.vault.vaultTokenAccount, h.vault.pendingVault,
    h.vault.trancheConfig]

/-- Settings keep the terms coherent as long as a tranche vault charges no
performance fee. -/
theorem Reconfigured.coherent (h : Reconfigured s s') (hc : s.terms.Coherent) :
    s'.terms.Coherent := by
  have htc : s'.vault.trancheConfig = s.vault.trancheConfig := h.vault.trancheConfig
  rw [h.terms]
  refine ⟨hc.plain, fun tt htt => ?_, hc.assets⟩
  obtain ⟨hpda, ht⟩ := hc.tranched tt htt
  refine ⟨hpda, ht.vault, ht.senior_ne_junior, ht.shareMint, ht.minJuniorRatioBps, ?_⟩
  refine (h.vault.performanceFeeBps ht.performanceFeeBps).resolve_left fun hnone => ?_
  exact absurd (hnone.symm.trans (htc.trans hpda)) (by simp)

theorem Reconfigured.valid (h : Reconfigured s s') (hv : s.terms.Valid s.token) :
    s'.terms.Valid s'.token := by
  have hc := h.coherent hv.coherent
  rw [h.terms] at hc ⊢
  rw [h.token]
  refine ⟨hv.mintable, hv.plain, hc.tranched, hv.reserve, hv.pendingVault, hv.reserve_ne,
    fun m a ha => ?_⟩
  obtain ⟨h₁, h₂, h₃, h₄, h₅⟩ := hv.assets m a ha
  exact ⟨h₁, h₂, h₃, h₄, h₅⟩

theorem Reconfigured.book (h : Reconfigured s s') : s'.book = s.book := by
  have hmints : s'.terms.shareMints = s.terms.shareMints := by rw [h.terms]; rfl
  have hescrow : s'.terms.pendingVaultOf = s.terms.pendingVaultOf := by rw [h.terms]; rfl
  have hres : s'.reserved = s.reserved := by
    funext m
    simp only [VaultState.reserved, h.vault.assetMint, h.vault.pendingDepositAmount, h.vaultAssets]
  simp only [VaultState.book, hmints, hescrow, hres, h.token, h.requests, h.trancheConfig,
    h.vault.shareMint, h.vault.nav, h.vault.pendingAsyncRequests, h.vault.totalAssetBalance]

theorem Reconfigured.minting (h : Reconfigured s s') (hm : s.Minting) : s'.Minting := by
  have hmints : s'.terms.shareMints = s.terms.shareMints := by rw [h.terms]; rfl
  refine ⟨h.coherent hm.coherent, fun m hmem => ?_, fun k r hk => ?_, fun hi => ?_⟩
  · rw [hmints] at hmem
    rw [h.token, h.key]
    exact hm.mintable m hmem
  · rw [h.requests] at hk
    obtain ⟨h₁, h₂, h₃⟩ := hm.requests k r hk
    exact ⟨h₁.trans h.key.symm, by rwa [h.key], by rwa [hmints]⟩
  · rw [h.requests]
    exact hm.uninitialized (h.vault.initialized hi)

/-- **Settings do not show in the order book.** -/
theorem Reconfigured.tracked (h : Reconfigured s s') (hm : s.Minting) :
    Tracked s .configured s' where
  key := h.key
  minting := h.minting hm
  valid := h.valid
  shadow := by
    refine ⟨s.book.escrow, s.book.escrow, ?_⟩
    rw [VaultState.bookAt, VaultState.bookAt, h.book]
    exact Step.idle (.inl rfl) le_rfl
  step _ := by
    rw [h.book]
    exact Step.idle (.inl rfl) le_rfl

/-! ### The instructions that change settings -/

theorem reconfigured_extensions (ext : VaultExtensions) :
    Reconfigured s { s with extensions := ext } :=
  ⟨rfl, rfl, rfl, rfl, rfl, rfl, .refl _⟩

theorem sameBooks_withArgs {args : UpdateVaultArgs} (h : (v.withArgs args).ConfigValid) :
    v.SameBooks (v.withArgs args) :=
  ⟨rfl, rfl, rfl, rfl, rfl, rfl, rfl, rfl, rfl, id, fun _ => h.tranche⟩

theorem reconfigured_change {c : Change} (h : s.Accepts c) : Reconfigured s (s.change c) := by
  cases c with
  | vault args => exact ⟨rfl, rfl, rfl, rfl, rfl, rfl, sameBooks_withArgs h⟩
  | fee args => exact reconfigured_extensions _
  | extension args => exact reconfigured_extensions _

theorem Configured.reconfigured {i : ConfigInstruction} (hi : i.IsSetting)
    (h : Configured s i s') : Reconfigured s s' := by
  have hsettings : s.vault.SameBooks s.vault := .refl _
  cases h with
  | started =>
    exact ⟨rfl, rfl, rfl, rfl, rfl, rfl,
      { hsettings with initialized := fun hinit => Bool.noConfusion hinit }⟩
  | divided => exact hi.elim
  | extended => exact ⟨rfl, rfl, rfl, rfl, rfl, rfl, { hsettings with }⟩
  | changed _ _ _ accepted => exact reconfigured_change accepted
  | executed _ _ _ _ _ accepted => exact { reconfigured_change accepted with }
  | listed relists => exact absurd hi relists
  | _ => exact ⟨rfl, rfl, rfl, rfl, rfl, rfl, { hsettings with }⟩

/-- **The other instructions change settings only.** -/
theorem execConfig_reconfigured {i : ConfigInstruction} (hi : i.IsSetting)
    (h : execConfig s i = .ok s') : Reconfigured s s' :=
  (execConfig_configured h).reconfigured hi

/-! ### Tranches -/

theorem valid_split {token : Ledger Pubkey} {tc : TrancheConfig} (hv : s.terms.Valid s.token)
    (hg : Guarded s.key s.token token)
    (hmint : ∀ m, m = tc.seniorShareMint ∨ m = tc.juniorShareMint → token.Mintable m s.key)
    (htc : (s.split token tc).terms.ValidTranches tc.terms) :
    (s.split token tc).terms.Valid token where
  mintable m hm := hmint m (by simpa [Terms.shareMints, VaultState.terms, VaultState.split,
    TrancheConfig.terms] using hm)
  plain hnone := absurd hnone (by simp [VaultState.terms, VaultState.split])
  tranched tt htt := by
    obtain rfl : tc.terms = tt := by simpa [VaultState.terms, VaultState.split] using htt
    exact ⟨rfl, htc⟩
  reserve := hg.alone _ _ hv.reserve
  pendingVault := hg.alone _ _ hv.pendingVault
  reserve_ne := hv.reserve_ne
  assets m a ha :=
    let v := hv.assets m a ha
    ⟨v.vault, v.assetMint, v.ne_primary, hg.alone _ _ v.reserve, hg.alone _ _ v.pendingVault⟩

theorem minting_split {token : Ledger Pubkey} {tc : TrancheConfig} (hm : s.Minting)
    (hmint : ∀ m, m = tc.seniorShareMint ∨ m = tc.juniorShareMint → token.Mintable m s.key)
    (htc : (s.split token tc).terms.ValidTranches tc.terms) (hempty : s.requests = ∅) :
    (s.split token tc).Minting where
  coherent := by
    refine ⟨fun hnone => absurd hnone (by simp [VaultState.terms, VaultState.split]),
      fun tt htt => ?_, hm.coherent.assets⟩
    obtain rfl : tc.terms = tt := by simpa [VaultState.terms, VaultState.split] using htt
    exact ⟨rfl, htc⟩
  mintable m hmem := hmint m (by simpa [Terms.shareMints, VaultState.terms, VaultState.split,
    TrancheConfig.terms] using hmem)
  requests := by
    show ∀ k r, s.requests.lookup k = some r → _
    rw [hempty]
    rintro k r ⟨⟩
  uninitialized _ := hempty

/-- The book after a split differs in its tranches and the units of their shares. -/
theorem book_split {token : Ledger Pubkey} (tc : TrancheConfig) (htc : s.trancheConfig = none)
    (hacc : token.accounts = s.token.accounts)
    (hsup : ∀ m, m = tc.seniorShareMint ∨ m = tc.juniorShareMint → token.supply m = 0)
    (hunissued : s.book.supply = fun _ => 0)
    (hnav : tc.seniorNav = 0 ∧ tc.juniorNav = 0 ∧ tc.seniorSupply = 0 ∧ tc.juniorSupply = 0) :
    (s.split token tc).book = { s.book with
      tranches := some tc.tranches, unit := (s.split token tc).book.unit } := by
  obtain ⟨h₁, h₂, h₃, h₄⟩ := hnav
  have hbal : token.balance = s.token.balance := by
    funext a
    simp [Ledger.balance, hacc]
  refine Book.ext rfl rfl rfl ?_ (funext fun m => ?_) (funext fun m => ?_) (funext fun m => ?_)
    rfl rfl rfl rfl rfl
  · show (fun m => ((s.terms.pendingVaultOf m).map token.balance).getD 0) = s.book.escrow
    rw [hbal]
    rfl
  · rw [hunissued]
    simp only [VaultState.book, Terms.shareMints, VaultState.terms, VaultState.split,
      Option.map_some, TrancheConfig.terms, List.mem_cons, List.not_mem_nil, or_false]
    split
    · next hm => exact hsup m hm
    · rfl
  · simp [VaultState.book, VaultState.split, htc, TrancheConfig.supplyOf, h₃, h₄]
  · simp [VaultState.book, VaultState.split, htc, TrancheConfig.navOf, h₁, h₂]

/-- **Splitting a vault** happens before its first request and before any share
exists. -/
theorem initializeTranches_ok (hm : s.Minting) {ctx : InitializeTranches}
    {args : InitializeTranchesArgs} (h : initializeTranches s ctx args = .ok s') :
    s'.requests = s.requests ∧ Tracked s .configured s' := by
  obtain ⟨token, hd⟩ := initializeTranches_divides h
  obtain rfl := hd.state
  have hempty := hm.uninitialized hd.uninitialized
  -- the only share of a plain vault is one of the two, and both are unissued
  have hunissued : s.book.supply = fun _ => 0 := by
    funext m
    simp only [VaultState.book, Terms.shareMints, VaultState.terms, hd.absent, Option.map_none,
      List.mem_singleton]
    split
    · next hm =>
      subst hm
      exact hd.unissued _ (hd.shareMint.imp Eq.symm Eq.symm)
    · rfl
  have hvalid : (s.split token (initialTrancheConfig s.key ctx args)).terms.ValidTranches
      (initialTrancheConfig s.key ctx args).terms :=
    ⟨rfl, hd.distinct, hd.shareMint.imp Eq.symm Eq.symm, hd.minJuniorRatio, hd.performanceFee⟩
  have hbook := book_split (initialTrancheConfig s.key ctx args) hd.absent hd.accounts
    (fun m hm => (hd.supply m).trans (hd.unissued m hm)) hunissued ⟨rfl, rfl, rfl, rfl⟩
  -- the split is one step of the ledger, whatever is in escrow
  have hstep : ∀ esc, Step (s.bookAt esc) .configured
      ((s.split token (initialTrancheConfig s.key ctx args)).bookAt esc) := by
    intro esc
    rw [VaultState.bookAt_of_book hbook]
    refine Step.split (B := s.bookAt esc) ?_ ?_ hunissued ?_
    · simp [VaultState.bookAt, VaultState.book, hd.absent]
    · simp [VaultState.bookAt, VaultState.book, hempty]
    · simp [VaultState.bookAt, VaultState.book, hd.absent]
  refine ⟨rfl, minting_split hm hd.mintable hvalid hempty, rfl,
    fun hv => valid_split hv hd.untouched.toGuarded hd.mintable hvalid,
    ⟨s.book.escrow, s.book.escrow, hstep _⟩, fun _ => ?_⟩
  have hown := hstep s.book.escrow
  rw [VaultState.bookAt, VaultState.bookAt] at hown
  convert hown using 1
  rw [hbook]

/-! ### Assets -/

/-- The accounts of every asset but `m` are kept, with what they hold. -/
def KeptExcept (s : VaultState) (token : Ledger Pubkey) (m : Pubkey) : Prop :=
  token.mints = s.token.mints ∧
    ∀ a m', m' ≠ m → s.token.HoldsAlone a m' s.key →
      token.HoldsAlone a m' s.key ∧ token.balance a = s.token.balance a

theorem valid_setAsset {token : Ledger Pubkey} {va : Option VaultAsset} {count : ℕ}
    (hv : s.terms.Valid s.token) (hk : KeptExcept s token m) (hm : s.vault.assetMint ≠ m)
    (hva : ∀ va', va = some va' → s.terms.ValidAsset token m va'.terms) :
    (s.setAsset token m va count).terms.Valid token where
  mintable m' hm' := by
    obtain ⟨y, hy, hk'⟩ := hv.mintable m' hm'
    exact ⟨y, by rw [hk.1, hy], hk'⟩
  plain := hv.plain
  tranched tt htt := by
    obtain ⟨hpda, ht⟩ := hv.tranched tt htt
    exact ⟨hpda, ⟨ht.vault, ht.senior_ne_junior, ht.shareMint, ht.minJuniorRatioBps,
      ht.performanceFeeBps⟩⟩
  reserve := (hk.2 _ _ hm hv.reserve).1
  pendingVault := (hk.2 _ _ hm hv.pendingVault).1
  reserve_ne := hv.reserve_ne
  assets m' a ha := by
    -- the new asset is valid by assumption, the others kept their accounts
    by_cases hmm : m' = m
    · subst hmm
      obtain ⟨va', hva', rfl⟩ : ∃ va', va = some va' ∧ va'.terms = a := by
        simpa [VaultState.terms, VaultState.setAsset] using ha
      obtain ⟨h₁, h₂, h₃, h₄, h₅⟩ := hva va' hva'
      exact ⟨h₁, h₂, h₃, h₄, h₅⟩
    · have ha' : s.terms.assets m' = some a := by
        simpa [VaultState.terms, VaultState.setAsset, hmm] using ha
      obtain ⟨h₁, h₂, h₃, h₄, h₅⟩ := hv.assets m' a ha'
      exact ⟨h₁, h₂, h₃, (hk.2 _ _ hmm h₄).1, (hk.2 _ _ hmm h₅).1⟩

theorem minting_setAsset {token : Ledger Pubkey} {va : Option VaultAsset} {count : ℕ}
    (hmint : s.Minting) (hmints : token.mints = s.token.mints) (hm : s.vault.assetMint ≠ m)
    (hva : ∀ va', va = some va' → va'.vault = s.key ∧ va'.assetMint = m) :
    (s.setAsset token m va count).Minting where
  coherent := by
    refine ⟨hmint.coherent.plain, fun tt htt => ?_, fun m' a ha => ?_⟩
    · obtain ⟨hpda, ht⟩ := hmint.coherent.tranched tt htt
      exact ⟨hpda, ht.vault, ht.senior_ne_junior, ht.shareMint, ht.minJuniorRatioBps,
        ht.performanceFeeBps⟩
    · by_cases hmm : m' = m
      · subst hmm
        obtain ⟨va', hva', rfl⟩ : ∃ va', va = some va' ∧ va'.terms = a := by
          simpa [VaultState.terms, VaultState.setAsset] using ha
        obtain ⟨hvault, hasset⟩ := hva va' hva'
        exact ⟨hvault, hasset, hm⟩
      · have ha' : s.terms.assets m' = some a := by
          simpa [VaultState.terms, VaultState.setAsset, hmm] using ha
        exact hmint.coherent.assets m' a ha'
  mintable m' hm' := by
    obtain ⟨y, hy, hk⟩ := hmint.mintable m' hm'
    exact ⟨y, (congrFun hmints m').trans hy, hk⟩
  requests k r hr :=
    let ⟨h₁, h₂, h₃⟩ := hmint.requests k r hr
    ⟨h₁, h₂, h₃⟩
  uninitialized := hmint.uninitialized

/-- Changing the entry of a secondary asset is idle when nothing is reserved in it
before or after and its escrow was empty. -/
theorem setAsset_tracked (hmint : s.Minting) {token : Ledger Pubkey} {va : Option VaultAsset}
    {count : ℕ} (hmints : token.mints = s.token.mints) (hm : s.vault.assetMint ≠ m)
    (hva : ∀ va', va = some va' → va'.vault = s.key ∧ va'.assetMint = m)
    (h0 : ((s.vaultAssets m).map VaultAsset.pendingDepositAmount).getD 0 = 0)
    (h1 : (va.map VaultAsset.pendingDepositAmount).getD 0 = 0)
    (hvalid : s.terms.Valid s.token → KeptExcept s token m ∧
      (∀ va', va = some va' → s.terms.ValidAsset token m va'.terms) ∧ s.book.escrow m = 0) :
    Tracked s .configured (s.setAsset token m va count) := by
  -- nothing was or is reserved in the asset, so the book is as before
  have hstep : ∀ esc esc', esc ≤ esc' →
      Step (s.bookAt esc) .configured ((s.setAsset token m va count).bookAt esc') := by
    intro esc esc' hesc
    convert Step.idle (B := s.bookAt esc) (.inl rfl) hesc using 1
    refine Book.ext rfl rfl (funext fun m' => ?_) rfl (funext fun m' => ?_) rfl rfl
      (funext fun m' => ?_) rfl rfl rfl rfl
    · simp only [VaultState.bookAt, VaultState.book, VaultState.setAsset, VaultState.reserved]
      by_cases hmm : m' = m
      · subst hmm
        simp [hm, h0, h1]
      · simp [hmm]
    · show (if m' ∈ s.terms.shareMints then token.supply m' else 0) = s.book.supply m'
      simp [VaultState.book, Ledger.supply, hmints]
    · show (if m' ∈ s.terms.shareMints then token.unit m' else 1) = s.book.unit m'
      simp [VaultState.book, Ledger.unit, hmints]
  refine ⟨minting_setAsset hmint hmints hm hva, rfl, fun hv => ?_,
    ⟨s.book.escrow, s.book.escrow, hstep _ _ le_rfl⟩, fun hv => hstep _ _ fun m' => ?_⟩
  · obtain ⟨hk, hva, -⟩ := hvalid hv
    exact valid_setAsset hv hk hm hva
  · obtain ⟨hk, -, hesc⟩ := hvalid hv
    show s.book.escrow m' ≤ (s.setAsset token m va count).book.escrow m'
    by_cases hmm : m' = m
    -- the escrow of the changed asset was empty
    · rw [hmm, hesc]
      exact Nat.zero_le _
    · have hsame : (s.setAsset token m va count).terms.pendingVaultOf m' =
          s.terms.pendingVaultOf m' := by
        simp [Terms.pendingVaultOf, VaultState.terms, VaultState.setAsset, hmm]
      simp only [VaultState.book, hsame]
      cases ha : s.terms.pendingVaultOf m' with
      | none => exact le_rfl
      | some a => exact (hk.2 a m' hmm (hv.alone_pendingVaultOf ha)).2.ge

/-- Registering an asset opens an empty escrow. -/
theorem addVaultAsset_ok (hm : s.Minting) {ctx : AddVaultAsset} {depositCap : ℕ}
    (h : addVaultAsset s ctx depositCap = .ok s') :
    s'.requests = s.requests ∧ Tracked s .configured s' := by
  obtain ⟨token₁, token, hl⟩ := addVaultAsset_listed h
  obtain rfl := hl.state
  have hu₁ := initializeAccount_untouched hl.reserve s.key
  have hu₂ := initializeAccount_untouched hl.pendingVault s.key
  obtain ⟨-, ht₁⟩ := initializeAccount_ok hl.reserve
  obtain ⟨-, ht₂⟩ := initializeAccount_ok hl.pendingVault
  have hmints : token.mints = s.token.mints := by
    rw [ht₂, ht₁, mints_setAccount, mints_setAccount]
  have hreserve := initializeAccount_alone hl.reserve
  have hpending := initializeAccount_alone hl.pendingVault
  refine ⟨rfl, setAsset_tracked hm hmints (Ne.symm hl.secondary) ?_ (by simp [hl.free]) rfl
    fun _ => ⟨⟨hmints, fun a m' _ ha => ⟨hu₂.alone _ _ (hu₁.alone _ _ ha), ?_⟩⟩, ?_, ?_⟩⟩
  · rintro va ⟨⟩
    exact ⟨rfl, rfl⟩
  · rw [hu₂.balance a m' (hu₁.holds a m' ha.holds), hu₁.balance a m' ha.holds]
  · rintro va ⟨⟩
    exact ⟨rfl, rfl, Ne.symm hl.secondary, hu₂.alone _ _ hreserve, hpending⟩
  · simp [VaultState.book, Terms.pendingVaultOf, VaultState.terms, Ne.symm hl.secondary, hl.free]

/-- Removing an asset closes an escrow that holds nothing. -/
theorem removeVaultAsset_ok (hm : s.Minting)
    (h : removeVaultAsset s authority m = .ok s') :
    s'.requests = s.requests ∧ Tracked s .configured s' := by
  obtain ⟨va, token₁, token, count, hremoved⟩ := removeVaultAsset_removed h
  obtain ⟨hmints, haccounts⟩ := hremoved.accounts
  obtain rfl := hremoved.state
  have hva := hremoved.found
  have hprim : s.vault.assetMint ≠ m :=
    (hm.coherent.assets m va.terms (by simp [VaultState.terms, hva])).2.2
  refine ⟨rfl, setAsset_tracked hm hmints hprim (by rintro _ ⟨⟩)
    (by simp [hva, hremoved.pending]) rfl fun hv => ⟨⟨hmints, fun a m' hm' ha => ?_⟩,
      by rintro _ ⟨⟩, ?_⟩⟩
  · -- accounts of another mint are at other addresses
    have hasset := hv.assets m va.terms (by simp [VaultState.terms, hva])
    have hsame : token.accounts a = s.token.accounts a :=
      haccounts a (ha.holds.ne_of_mint hasset.reserve.holds hm')
        (ha.holds.ne_of_mint hasset.pendingVault.holds hm')
    obtain ⟨x, hx, hxm⟩ := ha
    exact ⟨⟨x, hsame.trans hx, hxm⟩, by simp only [Ledger.balance, hsame]⟩
  · have hescrow : s.terms.pendingVaultOf m = some va.pendingVault := by
      simp [Terms.pendingVaultOf, VaultState.terms, hprim, hva, VaultAsset.terms]
    rw [VaultState.escrow_of_some hescrow, hremoved.escrowEmpty]

/-! ### Any configuration -/

/-- **Specification of the configuration instructions.** -/
theorem execConfig_ok (hm : s.Minting) {i : ConfigInstruction} (h : execConfig s i = .ok s') :
    s'.requests = s.requests ∧ Tracked s .configured s' := by
  by_cases hi : i.IsSetting
  · have hr := execConfig_reconfigured hi h
    exact ⟨hr.requests, hr.tracked hm⟩
  · cases i <;> try exact absurd trivial hi
    case initializeTranches => exact initializeTranches_ok hm h
    case addVaultAsset => exact addVaultAsset_ok hm h
    case removeVaultAsset => exact removeVaultAsset_ok hm h

end AsyncVault
