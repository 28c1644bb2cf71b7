/-
AsyncVault/Terms.lean

The standing terms of a vault, and when a state is well formed.

Most of what a request instruction reads it does not change: the addresses of
the vault and of its token accounts, its share mints, the registered assets.
`VaultState.terms` gathers that part of the state.  Two functions of it matter
everywhere else: which mints are share mints (`Terms.shareMints`) and which
account escrows an asset (`Terms.pendingVaultOf`).

`Terms.Valid` says how the terms fit the token ledger: the vault may mint its
share mints and owns its token accounts, for which it has approved no delegate.  Nobody but the
vault can undo that, so validity survives everything that is `Guarded` by the vault's key.
`WellFormed` adds what holds of every request account.
-/
import AsyncVault.Program

namespace AsyncVault

open TokenLedger KeyedStore

/-! ### Terms -/

structure TrancheTerms where
  vault : Pubkey
  seniorShareMint : Pubkey
  juniorShareMint : Pubkey
  minJuniorRatioBps : ℕ

structure AssetTerms where
  vault : Pubkey
  assetMint : Pubkey
  reserve : Pubkey
  pendingVault : Pubkey

/-- What request instructions leave alone. -/
structure Terms where
  key : Pubkey
  trancheConfigPda : Pubkey
  assetMint : Pubkey
  shareMint : Pubkey
  vaultTokenAccount : Pubkey
  pendingVault : Pubkey
  initialized : Bool
  performanceFeeBps : ℕ
  trancheConfig : Option Pubkey
  tranches : Option TrancheTerms
  assets : Pubkey → Option AssetTerms

def TrancheConfig.terms (tc : TrancheConfig) : TrancheTerms :=
  ⟨tc.vault, tc.seniorShareMint, tc.juniorShareMint, tc.minJuniorRatioBps⟩

def VaultAsset.terms (va : VaultAsset) : AssetTerms :=
  ⟨va.vault, va.assetMint, va.reserve, va.pendingVault⟩

def VaultState.terms (s : VaultState) : Terms where
  key := s.key
  trancheConfigPda := s.trancheConfigPda
  assetMint := s.vault.assetMint
  shareMint := s.vault.shareMint
  vaultTokenAccount := s.vault.vaultTokenAccount
  pendingVault := s.vault.pendingVault
  initialized := s.vault.initialized
  performanceFeeBps := s.vault.performanceFeeBps
  trancheConfig := s.vault.trancheConfig
  tranches := s.trancheConfig.map TrancheConfig.terms
  assets := fun m => (s.vaultAssets m).map VaultAsset.terms

namespace Terms

/-- The share mints of a vault: its own, or those of its two tranches. -/
def shareMints (t : Terms) : List Pubkey :=
  match t.tranches with
  | none => [t.shareMint]
  | some tt => [tt.seniorShareMint, tt.juniorShareMint]

/-- The account that escrows an asset of the vault. -/
def pendingVaultOf (t : Terms) (assetMint : Pubkey) : Option Pubkey :=
  if t.assetMint = assetMint then some t.pendingVault
  else (t.assets assetMint).map AssetTerms.pendingVault

/-- A tranche configuration that fits its vault. -/
structure ValidTranches (t : Terms) (tt : TrancheTerms) : Prop where
  vault : tt.vault = t.key
  senior_ne_junior : tt.seniorShareMint ≠ tt.juniorShareMint
  shareMint : t.shareMint = tt.seniorShareMint ∨ t.shareMint = tt.juniorShareMint
  minJuniorRatioBps : tt.minJuniorRatioBps ≤ maxBps
  performanceFeeBps : t.performanceFeeBps = 0

/-- A registered asset that fits its vault and its key. -/
structure ValidAsset (t : Terms) (token : Ledger Pubkey) (m : Pubkey) (a : AssetTerms) : Prop where
  vault : a.vault = t.key
  assetMint : a.assetMint = m
  ne_primary : t.assetMint ≠ m
  reserve : token.HoldsAlone a.reserve m t.key
  pendingVault : token.HoldsAlone a.pendingVault m t.key

/-- The terms fit each other, whatever the tokens do. -/
structure Coherent (t : Terms) : Prop where
  plain : t.tranches = none → t.trancheConfig = none
  tranched : ∀ tt, t.tranches = some tt →
    t.trancheConfig = some t.trancheConfigPda ∧ t.ValidTranches tt
  assets : ∀ m a, t.assets m = some a →
    a.vault = t.key ∧ a.assetMint = m ∧ t.assetMint ≠ m

/-- The terms fit the token ledger. -/
structure Valid (t : Terms) (token : Ledger Pubkey) : Prop where
  mintable : ∀ m ∈ t.shareMints, token.Mintable m t.key
  plain : t.tranches = none → t.trancheConfig = none
  tranched : ∀ tt, t.tranches = some tt →
    t.trancheConfig = some t.trancheConfigPda ∧ t.ValidTranches tt
  reserve : token.HoldsAlone t.vaultTokenAccount t.assetMint t.key
  pendingVault : token.HoldsAlone t.pendingVault t.assetMint t.key
  reserve_ne : t.vaultTokenAccount ≠ t.pendingVault
  assets : ∀ m a, t.assets m = some a → t.ValidAsset token m a

variable {t : Terms} {token token' : Ledger Pubkey} {m a : Pubkey}

theorem Valid.coherent (h : t.Valid token) : t.Coherent where
  plain := h.plain
  tranched := h.tranched
  assets m a ha := ⟨(h.assets m a ha).vault, (h.assets m a ha).assetMint,
    (h.assets m a ha).ne_primary⟩

/-- Validity survives whatever leaves the vault in control. -/
theorem Valid.guarded (h : t.Valid token) (hg : Guarded t.key token token') : t.Valid token' where
  mintable m hm := hg.mintable m (h.mintable m hm)
  plain := h.plain
  tranched := h.tranched
  reserve := hg.alone _ _ h.reserve
  pendingVault := hg.alone _ _ h.pendingVault
  reserve_ne := h.reserve_ne
  assets m a ha :=
    let v := h.assets m a ha
    ⟨v.vault, v.assetMint, v.ne_primary, hg.alone _ _ v.reserve, hg.alone _ _ v.pendingVault⟩

/-- An escrow account holds its asset for the vault. -/
theorem Valid.alone_pendingVaultOf (h : t.Valid token) (ha : t.pendingVaultOf m = some a) :
    token.HoldsAlone a m t.key := by
  unfold pendingVaultOf at ha
  split at ha
  · next hm =>
    obtain rfl := hm
    obtain rfl := Option.some.inj ha
    exact h.pendingVault
  · obtain ⟨x, hx, rfl⟩ := Option.map_eq_some_iff.1 ha
    exact (h.assets m x hx).pendingVault

theorem Valid.holds_pendingVaultOf (h : t.Valid token) (ha : t.pendingVaultOf m = some a) :
    token.Holds a m t.key :=
  (h.alone_pendingVaultOf ha).holds

/-- Different assets are escrowed at different addresses. -/
theorem Valid.pendingVaultOf_inj (h : t.Valid token) {m' : Pubkey}
    (ha : t.pendingVaultOf m = some a) (ha' : t.pendingVaultOf m' = some a) : m = m' :=
  ((h.holds_pendingVaultOf ha).unique (h.holds_pendingVaultOf ha')).1

theorem pendingVaultOf_primary (t : Terms) :
    t.pendingVaultOf t.assetMint = some t.pendingVault := by
  simp [pendingVaultOf]

/-- The share mint of the vault is one of its share mints. -/
theorem Coherent.shareMint_mem (h : t.Coherent) : t.shareMint ∈ t.shareMints := by
  unfold shareMints
  split
  · exact List.mem_singleton_self _
  · next tt htt =>
    rcases (h.tranched tt htt).2.shareMint with hs | hs <;> simp [hs]

end Terms

/-! ### Well-formed states -/

/-- A request account of this vault, for one of its share mints, that the vault
itself does not own. -/
structure VaultState.RequestOk (s : VaultState) (r : Request) : Prop where
  vault : r.vault = s.key
  owner : r.owner ≠ s.key
  shareMint : r.shareMintAddress ∈ s.terms.shareMints

/-- What a vault keeps whatever becomes of its token accounts: the terms fit each other, the
vault may mint its shares, every request account is in order, and there is none before the vault
is initialised. -/
structure VaultState.Minting (s : VaultState) : Prop where
  coherent : s.terms.Coherent
  mintable : ∀ m ∈ s.terms.shareMints, s.token.Mintable m s.key
  requests : ∀ k r, s.requests.lookup k = some r → s.RequestOk r
  uninitialized : s.vault.initialized = false → s.requests = ∅

/-- The terms are valid, every request account is in order, and there is none
before the vault is initialised. -/
structure VaultState.WellFormed (s : VaultState) : Prop where
  terms : s.terms.Valid s.token
  requests : ∀ k r, s.requests.lookup k = some r → s.RequestOk r
  uninitialized : s.vault.initialized = false → s.requests = ∅

namespace VaultState

variable {s s' : VaultState} {k m : Pubkey} {r : Request}

theorem WellFormed.minting (h : s.WellFormed) : s.Minting :=
  ⟨h.terms.coherent, h.terms.mintable, h.requests, h.uninitialized⟩

theorem Minting.wellFormed (h : s.Minting) (hv : s.terms.Valid s.token) : s.WellFormed :=
  ⟨hv, h.requests, h.uninitialized⟩

theorem RequestOk.of_terms (h : s.RequestOk r) (ht : s'.terms = s.terms) : s'.RequestOk r where
  vault := by rw [h.vault, show s'.key = s.key from congrArg Terms.key ht]
  owner := by rw [show s'.key = s.key from congrArg Terms.key ht]; exact h.owner
  shareMint := by rw [ht]; exact h.shareMint

theorem Minting.mintable_of_terms (h : s.Minting) (ht : s'.terms = s.terms)
    (hg : Guarded s.key s.token s'.token) :
    ∀ m ∈ s'.terms.shareMints, s'.token.Mintable m s'.key := by
  intro m hm
  rw [ht] at hm
  rw [show s'.key = s.key from congrArg Terms.key ht]
  exact hg.mintable m (h.mintable m hm)

/-- Steps that keep the terms and only remove requests. -/
theorem Minting.of_terms (h : s.Minting) (ht : s'.terms = s.terms)
    (hg : Guarded s.key s.token s'.token)
    (hr : ∀ k r, s'.requests.lookup k = some r → s.requests.lookup k = some r)
    (hi : s.requests = ∅ → s'.requests = ∅) : s'.Minting where
  coherent := by
    rw [ht]
    exact h.coherent
  mintable := h.mintable_of_terms ht hg
  requests k r hk := (h.requests k r (hr k r hk)).of_terms ht
  uninitialized hs :=
    hi (h.uninitialized (show s.terms.initialized = false by rw [← ht]; exact hs))

/-- Steps that keep the terms and write one request, when the vault is initialised and the
request is in order. -/
theorem Minting.of_insert (h : s.Minting) (ht : s'.terms = s.terms)
    (hg : Guarded s.key s.token s'.token) (hi : s.vault.initialized = true ∨ s.requests ≠ ∅)
    (hr : s.RequestOk r) (he : s'.requests = s.requests.insert k r) : s'.Minting where
  coherent := by
    rw [ht]
    exact h.coherent
  mintable := h.mintable_of_terms ht hg
  requests k' r' hk := by
    rw [he] at hk
    by_cases hkk : k' = k
    · subst hkk
      rw [AList.lookup_insert, Option.some.injEq] at hk
      subst hk
      exact hr.of_terms ht
    · rw [AList.lookup_insert_ne hkk] at hk
      exact (h.requests k' r' hk).of_terms ht
  uninitialized hs := by
    have hs' : s.vault.initialized = false :=
      show s.terms.initialized = false by rw [← ht]; exact hs
    rcases hi with hi | hi
    · rw [hs'] at hi
      cases hi
    · exact absurd (h.uninitialized hs') hi

theorem requests_ne_empty (h : s.requests.lookup k = some r) : s.requests ≠ ∅ := by
  intro he
  rw [he] at h
  cases h

/-- Erasing a request finds no new ones. -/
theorem lookup_of_erase {k' : Pubkey} (h : (s.requests.erase k).lookup k' = some r) :
    s.requests.lookup k' = some r := by
  by_cases hk : k' = k
  · subst hk
    simp at h
  · rwa [AList.lookup_erase_ne hk] at h

end VaultState

end AsyncVault
