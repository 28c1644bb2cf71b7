/-
AsyncVault/SecondaryAssets.lean

Assets other than the primary one.

Requests in a listed asset can be opened, taken back and refused, but never
approved: `approve_request` validates the accounts of the asset and then
refuses.  That one refusal is all there is, and everything else follows from
it.  No request in another asset is ever claimable (`PrimaryClaims`), so what is
escrowed for one can only go back to its owner (`exec_escrow`), nothing is ever
credited to the asset, and its venue instructions, which are there, have nothing
to move.
-/
import AsyncVault.Positions

namespace AsyncVault

open Checked TokenLedger KeyedStore OrderBook Function Machine

variable {c c' : VaultState} {s s' : ManagedState} {k m a x : Pubkey} {r : Request}
variable {remaining : List AccountInfo} {verify : MerkleCheck}

/-! ### The refusal -/

/-- What can be claimed is a matter of the primary asset. -/
def VaultState.PrimaryClaims (c : VaultState) : Prop :=
  ∀ k r, c.requests.lookup k = some r → r.requestState = .claimable →
    r.assetMintAddress = c.vault.assetMint

/-- An approval is about the primary asset. -/
theorem approveRequest_primary (hw : c.WellFormed) {ctx : ApproveRequest}
    {args : ApproveRequestArgs} (h : approveRequest c ctx args remaining = .ok c') :
    ctx.assetMint = c.vault.assetMint ∧ ∃ r, c.requests.lookup ctx.request = some r ∧
      r.assetMintAddress = c.vault.assetMint := by
  obtain ⟨r, share, context, c₁, x, v, hacc, -⟩ := approveRequest_iff.1 h
  have happ := (hacc.approvable hw.terms.coherent).1
  exact ⟨happ.primary.symm, r, happ.found, happ.asset.trans happ.primary.symm⟩

theorem execRequest_primaryClaims (hw : c.WellFormed) (hp : c.PrimaryClaims)
    {i : RequestInstruction} (h : execRequest c i remaining = .ok c') : c'.PrimaryClaims := by
  have hasset : c'.vault.assetMint = c.vault.assetMint :=
    exec_assetMint (b := .request i remaining) h
  intro k r hr hclaimable
  rw [hasset]
  have heffect := (execRequest_ok hw.minting h).1
  by_cases hk : k = i.request
  · subst hk
    generalize he : i.event = e at heffect
    cases heffect with
    | opened free state ok requests taken =>
      rw [requests, AList.lookup_insert, Option.some.injEq] at hr
      rw [← hr, state] at hclaimable
      cases hclaimable
    | approved found state requests =>
      -- the one way to become claimable
      cases i with
      | approveRequest ctx args =>
        obtain ⟨-, r₀, hr₀, hprimary⟩ := approveRequest_primary hw h
        rw [requests, AList.lookup_insert, Option.some.injEq] at hr
        obtain rfl := Option.some.inj (found.symm.trans hr₀)
        rw [← hr]
        exact hprimary
      | _ => cases he
    | claimed found state requests paid => simp [requests] at hr
    | refunded found state requests paid => simp [requests] at hr
    | canceled found state requests paid =>
      rw [requests, AList.lookup_insert, Option.some.injEq] at hr
      rw [← hr] at hclaimable
      cases hclaimable
    | skipped found state requests unpaid => simp [requests] at hr
    | @touched r₀ operator found requests unpaid =>
      rw [requests, AList.lookup_insert, Option.some.injEq] at hr
      rw [← hr] at hclaimable ⊢
      exact hp _ r₀ found hclaimable
  · rw [(heffect.elsewhere hk).2] at hr
    exact hp k r hr hclaimable

theorem exec_primaryClaims (hw : c.WellFormed) (hp : c.PrimaryClaims) {b : Action}
    (h : exec c b = .ok c') : c'.PrimaryClaims := by
  by_cases hb : ∃ i remaining, b = .request i remaining
  · obtain ⟨i, remaining, rfl⟩ := hb
    exact execRequest_primaryClaims hw hp h
  · push Not at hb
    intro k r hr hclaimable
    rw [exec_requests hw.minting h hb] at hr
    rw [exec_assetMint h]
    exact hp k r hr hclaimable

/-! ### Escrows -/

/-- The deposit at `k` was paid back in full to its owner, and is over. -/
structure VaultState.Returns (c c' : VaultState) (k : Pubkey) (r : Request) : Prop where
  found : c.requests.lookup k = some r
  deposit : r.requestType = .deposit
  pending : r.requestState = .pending
  ended : c'.requests.lookup k = none ∨
    c'.requests.lookup k = some { r with requestState := .canceled }
  paid : AssetsPaid c c'.token r

/-- What a refund pays leaves the escrow of the request's asset. -/
theorem AssetsPaid.escrow {token : Ledger Pubkey} (h : AssetsPaid c token r) (hw : c.WellFormed)
    (ha : c.terms.pendingVaultOf m = some a) :
    c.token.balance a ≤ token.balance a ∨
      r.assetMintAddress = m ∧ token.balance a + r.amount = c.token.balance a := by
  obtain ⟨program, src, dst, hsrc, hdst, hne, htr⟩ := h
  by_cases hm : r.assetMintAddress = m
  · subst hm
    obtain rfl := Option.some.inj (ha.symm.trans hsrc)
    exact .inr ⟨rfl, htr.balance_src hne⟩
  · refine .inl (htr.spent.balance_of_ne a ?_)
    rintro rfl
    exact hm (hw.terms.pendingVaultOf_inj hsrc ha)

theorem Taken.escrow {token : Ledger Pubkey} (h : Taken c token r) (hw : c.WellFormed)
    (ho : r.owner ≠ c.key) (ha : c.terms.pendingVaultOf m = some a) :
    c.token.balance a ≤ token.balance a := by
  have hheld := hw.terms.holds_pendingVaultOf ha
  unfold Taken at h
  split at h
  · obtain ⟨program, src, dst, hdst, htr, hreceived⟩ := h
    have hne : a ≠ src := hheld.ne_of_owner htr.src_holds ho.symm
    by_cases had : a = dst
    · subst had
      omega
    · exact (htr.balance_of_ne a hne had).ge
  · obtain ⟨src, hburned⟩ := h
    exact (hburned.balance_of_ne a (hheld.ne_of_owner hburned.src_holds ho.symm)).ge

/-- An approval apart, a request instruction takes from the escrow of another asset only what it
returns. -/
theorem RequestEffect.escrow {e : Event Pubkey} (h : RequestEffect c c' k e) (hw : c.WellFormed)
    (hp : c.PrimaryClaims) (he : e ≠ .approved k) (hm : m ≠ c.vault.assetMint)
    (ha : c.terms.pendingVaultOf m = some a) :
    c.token.balance a ≤ c'.token.balance a ∨ ∃ r, c.Returns c' k r ∧
      r.assetMintAddress = m ∧ c'.token.balance a + r.amount = c.token.balance a := by
  -- a refund of a deposit is the one thing that takes from the escrow of another asset
  have hrefund : ∀ {r : Request}, c.requests.lookup k = some r → r.requestState = .pending →
      (c'.requests.lookup k = none ∨
        c'.requests.lookup k = some { r with requestState := .canceled }) →
      Refunded c c'.token r → c.token.balance a ≤ c'.token.balance a ∨ ∃ r, c.Returns c' k r ∧
        r.assetMintAddress = m ∧ c'.token.balance a + r.amount = c.token.balance a := by
    intro r found state ended paid
    unfold Refunded at paid
    split at paid
    · next ht =>
      rcases paid.escrow hw ha with hle | ⟨hasset, hout⟩
      · exact .inl hle
      · exact .inr ⟨r, ⟨found, ht, state, ended, paid⟩, hasset, hout⟩
    · obtain ⟨dst, -, hminted⟩ := paid
      exact .inl (hminted.balance_le a)
  -- the claims are of the primary asset, so a payout takes nothing here
  cases h with
  | opened free state ok requests taken => exact .inl (taken.escrow hw ok.owner ha)
  | approved => exact absurd rfl he
  | @claimed r found state requests paid =>
    unfold Settled at paid
    split at paid
    · obtain ⟨dst, -, hminted⟩ := paid
      exact .inl (hminted.balance_le a)
    · rcases paid.escrow hw ha with hle | ⟨hasset, -⟩
      · exact .inl hle
      · exact absurd (hasset.symm.trans (hp k r found state)) hm
  | refunded found state requests paid =>
    exact hrefund found state (.inl (by rw [requests, AList.lookup_erase])) paid
  | canceled found state requests paid =>
    exact hrefund found state (.inr (by rw [requests, AList.lookup_insert])) paid
  | skipped found state requests unpaid => exact .inl (by rw [unpaid])
  | touched found requests unpaid => exact .inl (by rw [unpaid])

/-- **The escrow of another asset** is left for a full refund only. -/
theorem exec_escrow (hw : c.WellFormed) (hp : c.PrimaryClaims) (hm : m ≠ c.vault.assetMint)
    (ha : c.terms.pendingVaultOf m = some a) {b : Action} (h : exec c b = .ok c') :
    c.token.balance a ≤ c'.token.balance a ∨ ∃ k r, c.Returns c' k r ∧
      r.assetMintAddress = m ∧ c'.token.balance a + r.amount = c.token.balance a := by
  have halone := hw.terms.alone_pendingVaultOf ha
  have hheld := halone.holds
  -- the escrow of another asset is neither the reserve nor the primary escrow
  have hreserve : a ≠ c.vault.vaultTokenAccount := by
    rintro rfl
    exact hm (hheld.unique hw.terms.reserve.holds).1
  have hescrow : a ≠ c.vault.pendingVault := by
    rintro rfl
    exact hm (hheld.unique hw.terms.pendingVault.holds).1
  cases b with
  | request i remaining =>
    -- an approval pays fees from the reserve and moves the primary escrow only
    by_cases hi : ∃ ctx args, i = .approveRequest ctx args
    · obtain ⟨ctx, args, rfl⟩ := hi
      exact .inl (approveRequest_unspent hw hreserve hescrow h)
    · have he : i.event ≠ .approved i.request := by
        cases i with
        | approveRequest ctx args => exact absurd ⟨ctx, args, rfl⟩ hi
        | _ => exact fun he => nomatch he
      rcases (execRequest_ok hw.minting h).1.escrow hw hp he hm ha with hle | ⟨r, hr⟩
      · exact .inl hle
      · exact .inr ⟨_, r, hr⟩
  | instantDeposit ctx amount remaining => exact .inl (instantDeposit_unspent hheld h)
  | instantRedeem ctx shares remaining => exact .inl (instantRedeem_unspent hreserve hheld h)
  | updateVaultNav authority u remaining =>
    obtain ⟨version, mark, crystallized, tc, token, rfl, -, -, -, feeShares, hissued⟩ :=
      updateVaultNav_posted h
    exact .inl (hissued.balance_le a)
  | config i => exact .inl (execConfig_unspent hheld h)
  | world w =>
    obtain ⟨token, clock, htoken, rfl⟩ := execWorld_ok h
    exact .inl ((worldToken_outside htoken).balance a m halone)

/-- **A deposit of another asset** stays, or is returned. -/
theorem exec_deposit (hw : c.WellFormed) (hr : c.requests.lookup k = some r)
    (ht : r.requestType = .deposit) (hstate : r.requestState = .pending)
    (hm : r.assetMintAddress ≠ c.vault.assetMint) {b : Action} (h : exec c b = .ok c') :
    (∃ operator, c'.requests.lookup k = some { r with operator := operator }) ∨
      c.Returns c' k r := by
  by_cases hb : ∃ i remaining, b = .request i remaining
  · obtain ⟨i, remaining, rfl⟩ := hb
    have heffect := (execRequest_ok hw.minting h).1
    -- only an instruction on the request itself can change it
    by_cases hk : k = i.request
    · subst hk
      generalize he : i.event = e at heffect
      cases heffect with
      | opened free => exact absurd (hr.symm.trans free) (by simp)
      | approved found =>
        cases i with
        | approveRequest ctx args =>
          -- an approval refuses an asset that is not the primary one
          obtain ⟨-, r₀, hr₀, hprimary⟩ := approveRequest_primary hw h
          obtain rfl := Option.some.inj (hr.symm.trans hr₀)
          exact absurd hprimary hm
        | _ => cases he
      | claimed found state =>
        obtain rfl := Option.some.inj (hr.symm.trans found)
        exact absurd (hstate.symm.trans state) (by simp)
      | refunded found state requests paid =>
        obtain rfl := Option.some.inj (hr.symm.trans found)
        rw [Refunded, ht] at paid
        exact .inr ⟨hr, ht, hstate, .inl (by rw [requests, AList.lookup_erase]), paid⟩
      | canceled found state requests paid =>
        obtain rfl := Option.some.inj (hr.symm.trans found)
        rw [Refunded, ht] at paid
        exact .inr ⟨hr, ht, hstate, .inr (by rw [requests, AList.lookup_insert]), paid⟩
      | skipped found state =>
        obtain rfl := Option.some.inj (hr.symm.trans found)
        exact absurd (hstate.symm.trans state) (by simp)
      | touched found requests unpaid =>
        obtain rfl := Option.some.inj (hr.symm.trans found)
        exact .inl ⟨_, by rw [requests, AList.lookup_insert]⟩
    · rw [(heffect.elsewhere hk).2]
      exact .inl ⟨r.operator, hr⟩
  · push Not at hb
    rw [exec_requests hw.minting h hb]
    exact .inl ⟨r.operator, hr⟩

/-! ### Instructions on an asset -/

/-- The asset an instruction declares. -/
def RequestInstruction.assetMint : RequestInstruction → Option Pubkey
  | .createDepositRequest ctx _ => some ctx.assetMint
  | .createRedeemRequest ctx _ => some ctx.assetMint
  | .approveRequest ctx _ => some ctx.assetMint
  | .rejectRequest _ _ ctx _ => some ctx.assetMint
  | .cancelRequest _ ctx => some ctx.assetMint
  | .cancelQueuedDepositRequest ctx => some ctx.assetMint
  | .cancelQueuedRedemptionRequest ctx => some ctx.assetMint
  | .claim ctx => some ctx.assetMint
  | .skipCanceledQueueRequest .. | .setOperator .. => none

/-- An instruction is on the asset it declares and on the asset of its request. -/
def RequestInstruction.On (c : VaultState) (m : Pubkey) (i : RequestInstruction) : Prop :=
  i.assetMint = some m ∨
    ∃ r, c.requests.lookup i.request = some r ∧ r.assetMintAddress = m

/-- The instructions on the asset `m`. -/
def ManagedAction.On (s : ManagedState) (m : Pubkey) : ManagedAction → Prop
  | .core (.request i _) => i.On s.core m
  | .core (.instantDeposit ctx _ _) => ctx.assetMint = m
  | .core (.instantRedeem ctx _ _) => ctx.assetMint = m
  | .core (.config (.addVaultAsset ctx _)) => ctx.assetMint = m
  | .core (.config (.removeVaultAsset _ assetMint)) => assetMint = m
  | .venue (.createVenuePosition ctx) => ctx.assetMint = m
  | .venue (.deployVenuePosition ctx _) => ctx.assetMint = m
  | .venue (.pullVenuePosition ctx _) => ctx.assetMint = m
  | .venue (.removeVenuePosition ctx) => ctx.assetMint = m
  | .venue (.withdrawAssets ctx _) => ctx.assetMint = m
  | _ => False

/-- What an instruction declares is the asset of its request. -/
theorem execRequest_declared (hw : c.WellFormed) {i : RequestInstruction}
    (hi : i.assetMint = some m) (hr : c.requests.lookup i.request = some r)
    (h : execRequest c i remaining = .ok c') : r.assetMintAddress = m := by
  have hsame : ∀ {r' : Request}, c.requests.lookup i.request = some r' → r' = r :=
    fun hr' => Option.some.inj (hr'.symm.trans hr)
  cases i with
  | createDepositRequest ctx args =>
    have hfree : c.requests.lookup ctx.request = none := by
      cases (createDepositRequest_ok hw.minting h).1
      assumption
    exact absurd (hr.symm.trans hfree) (by simp)
  | createRedeemRequest ctx args =>
    have hfree : c.requests.lookup ctx.request = none := by
      cases (createRedeemRequest_ok hw.minting h).1
      assumption
    exact absurd (hr.symm.trans hfree) (by simp)
  | approveRequest ctx args =>
    obtain ⟨hctx, r', hr', hasset⟩ := approveRequest_primary hw h
    obtain rfl := hsame hr'
    rw [hasset, ← hctx]
    exact Option.some.inj hi
  | rejectRequest authority user ctx args =>
    obtain ⟨r', _, _, _, h⟩ := rejectRequest_iff.1 h
    obtain rfl := hsame h.found
    exact (checkRequestMints_ok h.mints).1.trans (Option.some.inj hi)
  | cancelRequest user ctx =>
    obtain ⟨r', _, _, h⟩ := cancelRequest_iff.1 h
    obtain rfl := hsame h.found
    exact (checkRequestMints_ok h.mints).1.trans (Option.some.inj hi)
  | cancelQueuedDepositRequest ctx =>
    obtain ⟨r', _, _, h⟩ := cancelQueuedDepositRequest_iff.1 h
    obtain rfl := hsame h.found
    exact (checkRequestMints_ok h.mints).1.trans (Option.some.inj hi)
  | cancelQueuedRedemptionRequest ctx =>
    obtain ⟨-, r', _, _, h⟩ := cancelQueuedRedemptionRequest_iff.1 h
    obtain rfl := hsame h.found
    exact (checkRequestMints_ok h.mints).1.trans (Option.some.inj hi)
  | claim ctx =>
    obtain ⟨r', p, token, hacc, -, -⟩ := claim_iff.1 h
    obtain rfl := hsame hacc.found
    exact hacc.asset.trans (Option.some.inj hi)
  | skipCanceledQueueRequest request owner => cases hi
  | setOperator user operator request => cases hi

theorem RequestInstruction.On.asset {i : RequestInstruction} (hon : i.On c m) (hw : c.WellFormed)
    (hr : c.requests.lookup i.request = some r) (h : execRequest c i remaining = .ok c') :
    r.assetMintAddress = m := by
  rcases hon with hi | ⟨r', hr', hasset⟩
  · exact execRequest_declared hw hi hr h
  · obtain rfl := Option.some.inj (hr.symm.trans hr')
    exact hasset

/-- On another asset there is nothing to approve. -/
theorem RequestInstruction.On.not_approval {i : RequestInstruction} (hon : i.On c m)
    (hw : c.WellFormed) (hm : m ≠ c.vault.assetMint) (h : execRequest c i remaining = .ok c') :
    ∀ ctx args, i ≠ .approveRequest ctx args := by
  rintro ctx args rfl
  obtain ⟨-, r, hr, hprimary⟩ := approveRequest_primary hw h
  exact hm ((hon.asset hw hr h).symm.trans hprimary)

/-! ### The primary asset -/

/-- What is opened on an asset is in that asset. -/
theorem RequestInstruction.On.opened {i : RequestInstruction} (hon : i.On c m)
    (hw : c.WellFormed) (he : i.event = .opened i.request)
    (hr : c'.requests.lookup i.request = some r) (h : execRequest c i remaining = .ok c') :
    r.assetMintAddress = m := by
  have hdeclared : i.assetMint = some m := by
    rcases hon with hi | ⟨r', hr', -⟩
    · exact hi
    · have heffect := (execRequest_ok hw.minting h).1
      rw [he] at heffect
      cases heffect with
      | opened free => exact absurd (hr'.symm.trans free) (by simp)
  cases i with
  | createDepositRequest ctx args =>
    obtain ⟨_, _, _, _, _, _, -, ⟨-, -, -, -, rfl⟩⟩ := createDepositRequest_iff.1 h
    have hopened := Option.some.inj ((AList.lookup_insert _).symm.trans hr)
    rw [← hopened]
    exact Option.some.inj hdeclared
  | createRedeemRequest ctx args =>
    obtain ⟨_, _, _, _, _, -, ⟨-, -, -, rfl⟩⟩ := createRedeemRequest_iff.1 h
    have hopened := Option.some.inj ((AList.lookup_insert _).symm.trans hr)
    rw [← hopened]
    exact Option.some.inj hdeclared
  | _ => cases he

theorem Docket.reserves_of_ne {d : Docket} (h : r.assetMintAddress ≠ d.assetMint) :
    d.reserves r = 0 :=
  if_neg fun h' => h h'.2.2

/-- A request in another asset moves neither amount of the primary one. -/
theorem DocketMove.secondary {d d' : Docket} {i : RequestInstruction} (h : DocketMove d i d')
    (hfound : ∀ r, d.requests.lookup i.request = some r → r.assetMintAddress ≠ d.assetMint)
    (hopened : ∀ r, i.event = .opened i.request → d'.requests.lookup i.request = some r →
      r.assetMintAddress ≠ d.assetMint) :
    d'.totalAssetBalance = d.totalAssetBalance ∧
      d'.pendingDepositAmount = d.pendingDepositAmount := by
  have hnone : ∀ {r}, d.requests.lookup i.request = some r → d.reserves r = 0 := fun hr =>
    Docket.reserves_of_ne (hfound _ hr)
  cases h with
  | @opened _ k r lane opens fresh pending enqueued capped =>
    refine ⟨rfl, ?_⟩
    have hzero : d.reserves r = 0 := by
      cases i with
      | createDepositRequest ctx args =>
        obtain ⟨rfl, -⟩ := Prod.mk.inj (Option.some.inj opens)
        exact Docket.reserves_of_ne (hopened r rfl (AList.lookup_insert _))
      | createRedeemRequest ctx args =>
        obtain ⟨rfl, -⟩ := Prod.mk.inj (Option.some.inj opens)
        exact Docket.reserves_of_ne (hopened r rfl (AList.lookup_insert _))
      | _ => cases opens
    show d.pendingDepositAmount + d.reserves r = d.pendingDepositAmount
    rw [hzero, Nat.add_zero]
  | settled found pending primary => exact absurd primary (hfound _ found)
  | @rejected _ _ _ _ r _ found =>
    refine ⟨rfl, ?_⟩
    show d.pendingDepositAmount - d.reserves r = d.pendingDepositAmount
    rw [hnone found, Nat.sub_zero]
  | @canceled _ _ r found =>
    refine ⟨rfl, ?_⟩
    show d.pendingDepositAmount - d.reserves r = d.pendingDepositAmount
    rw [hnone found, Nat.sub_zero]
  | @parked _ k r parks found =>
    refine ⟨rfl, ?_⟩
    have hk : k = i.request := by
      cases i <;> cases parks <;> rfl
    subst hk
    show d.pendingDepositAmount - d.reserves r = d.pendingDepositAmount
    rw [hnone found, Nat.sub_zero]
  | skipped => exact ⟨rfl, rfl⟩
  | claimed => exact ⟨rfl, rfl⟩
  | operated => exact ⟨rfl, rfl⟩

/-- A request instruction on another asset leaves the two amounts of the primary one alone. -/
theorem execRequest_on (hw : c.WellFormed) {i : RequestInstruction} (hon : i.On c m)
    (hm : m ≠ c.vault.assetMint) (h : execRequest c i remaining = .ok c') :
    c'.vault.totalAssetBalance = c.vault.totalAssetBalance ∧
      c'.vault.pendingDepositAmount = c.vault.pendingDepositAmount := by
  obtain ⟨d, hworked, hmove⟩ := execRequest_worked h
  have hsecondary := hmove.secondary (fun r hr => ?_) fun r he hr => ?_
  · rw [← hworked.docket] at hsecondary
    exact hsecondary
  · rw [hon.asset hw hr h]
    exact hm
  · rw [← hworked.docket] at hr
    rw [hon.opened hw he hr h]
    exact hm

/-! ### Shares -/

/-- The redemption at `k` was taken back: its owner has the very shares again that were burned
when it was opened. -/
structure VaultState.Restores (c c' : VaultState) (k : Pubkey) (r : Request) : Prop where
  found : c.requests.lookup k = some r
  redeem : r.requestType = .redeem
  pending : r.requestState = .pending
  ended : c'.requests.lookup k = none ∨
    c'.requests.lookup k = some { r with requestState := .canceled }
  paid : SharesPaid c c'.token r

/-- The supply of a mint does not rise but by shares that are restored. -/
def VaultState.Unminted (c c' : VaultState) (x : Pubkey) : Prop :=
  c'.token.supply x ≤ c.token.supply x ∨
    ∃ k r, c.Restores c' k r ∧ r.shareMintAddress = x ∧
      c'.token.supply x = c.token.supply x + r.amount

theorem VaultState.Unminted.of_mints (h : c'.token.mints = c.token.mints) : c.Unminted c' x := by
  refine .inl ?_
  simp only [Ledger.supply, h, le_refl]

/-- A request in another asset mints no shares, unless it restores them. -/
theorem RequestEffect.unminted {e : Event Pubkey} (h : RequestEffect c c' k e)
    (he : e ≠ .approved k) (hclaim : ∀ r, c.requests.lookup k = some r →
      r.requestState = .claimable → False) : c.Unminted c' x := by
  have hassets : ∀ {r : Request}, AssetsPaid c c'.token r → c.Unminted c' x := by
    rintro r ⟨program, src, dst, -, -, -, htr⟩
    exact .of_mints htr.mints
  have hrefund : ∀ {r : Request}, c.requests.lookup k = some r → r.requestState = .pending →
      (c'.requests.lookup k = none ∨
        c'.requests.lookup k = some { r with requestState := .canceled }) →
      Refunded c c'.token r → c.Unminted c' x := by
    intro r found state ended paid
    unfold Refunded at paid
    split at paid
    · exact hassets paid
    · next ht =>
      by_cases hx : x = r.shareMintAddress
      · obtain ⟨dst, hdst, hminted⟩ := paid
        refine .inr ⟨k, r, ⟨found, ht, state, ended, dst, hdst, hminted⟩, hx.symm, ?_⟩
        rw [hx]
        exact hminted.supply
      · obtain ⟨dst, -, hminted⟩ := paid
        exact .inl (hminted.supply_of_ne x hx).le
  cases h with
  | @opened r free state ok requests taken =>
    unfold Taken at taken
    split at taken
    · obtain ⟨program, src, dst, -, htr, -⟩ := taken
      exact .of_mints htr.mints
    · obtain ⟨src, hburned⟩ := taken
      refine .inl ?_
      by_cases hx : x = r.shareMintAddress
      · rw [hx]
        exact (Nat.le_add_right _ _).trans hburned.supply.le
      · exact (hburned.supply_of_ne x hx).le
  | approved => exact absurd rfl he
  | claimed found state => exact (hclaim _ found state).elim
  | refunded found state requests paid =>
    exact hrefund found state (.inl (by rw [requests, AList.lookup_erase])) paid
  | canceled found state requests paid =>
    exact hrefund found state (.inr (by rw [requests, AList.lookup_insert])) paid
  | skipped found state requests unpaid => exact .of_mints (by rw [unpaid])
  | touched found requests unpaid => exact .of_mints (by rw [unpaid])

/-! ### Steps -/

/-- What an instruction on another asset leaves alone. -/
structure VaultState.Leaves (c c' : VaultState) : Prop where
  total : c'.vault.totalAssetBalance = c.vault.totalAssetBalance
  pending : c'.vault.pendingDepositAmount = c.vault.pendingDepositAmount
  shares : ∀ x, c.Unminted c' x

/-- **The core and an instruction on another asset.** -/
theorem exec_on (hw : s.core.WellFormed) (hp : s.core.PrimaryClaims) {b : Action}
    (hon : ManagedAction.On s m (.core b)) (hm : m ≠ s.core.vault.assetMint)
    (h : exec s.core b = .ok c') : s.core.Leaves c' := by
  cases b with
  | request i remaining =>
    have hon : i.On s.core m := hon
    obtain ⟨htotal, hpending⟩ := execRequest_on hw hon hm h
    refine ⟨htotal, hpending, fun x => ?_⟩
    refine (execRequest_ok hw.minting h).1.unminted ?_ fun r hr hclaimable => ?_
    -- an approval would have refused the other asset
    · have hi := hon.not_approval hw hm h
      cases i with
      | approveRequest ctx args => exact absurd rfl (hi ctx args)
      | _ => exact fun he => nomatch he
    -- and a claimable request would be of the primary one
    · exact hm ((hon.asset hw hr h).symm.trans (hp _ r hr hclaimable))
  | instantDeposit ctx amount remaining =>
    obtain ⟨_, _, _, _, _, _, _, _, _, _, hi⟩ := instantDeposit_iff.1 h
    exact absurd (hon.symm.trans hi.accepted.primary.symm) hm
  | instantRedeem ctx shares remaining =>
    obtain ⟨_, _, _, _, _, _, _, _, _, _, _, hi⟩ := instantRedeem_iff.1 h
    exact absurd (hon.symm.trans hi.accepted.primary.symm) hm
  -- only the list of assets is left: a new asset brings two accounts and no mint
  | updateVaultNav => exact hon.elim
  | config i =>
    cases i with
    | addVaultAsset ctx depositCap =>
      obtain ⟨token₁, token, hl⟩ := addVaultAsset_listed h
      obtain rfl := hl.state
      refine ⟨rfl, rfl, fun x => VaultState.Unminted.of_mints ?_⟩
      obtain ⟨-, ht₁⟩ := initializeAccount_ok hl.reserve
      obtain ⟨-, ht⟩ := initializeAccount_ok hl.pendingVault
      show token.mints = s.core.token.mints
      rw [ht, ht₁, mints_setAccount, mints_setAccount]
    | removeVaultAsset authority asset =>
      obtain ⟨va, token₁, token, count, hremoved⟩ := removeVaultAsset_removed h
      obtain rfl := hremoved.state
      exact ⟨rfl, rfl, fun x => .of_mints hremoved.accounts.1⟩
    | _ => exact hon.elim
  | world w => exact hon.elim

/-- **Another asset is closed**: nothing of it can be claimed, and nothing of it is recorded. -/
structure ManagedState.FailsClosed (s : ManagedState) : Prop where
  claims : s.core.PrimaryClaims
  unstocked : Unstocked s.core

/-- **A step seen from another asset `m`.**  A deposit in it stays or is returned, its escrow is
left for a return only, and instructions on it move nothing of the primary asset and no shares. -/
structure ManagedState.Closed (s s' : ManagedState) (b : ManagedAction) (m : Pubkey) : Prop where
  deposits : ∀ k r, s.core.requests.lookup k = some r → r.requestType = .deposit →
    r.requestState = .pending → r.assetMintAddress = m →
    (∃ operator, s'.core.requests.lookup k = some { r with operator := operator }) ∨
      s.core.Returns s'.core k r
  escrow : ∀ va, s.core.vaultAssets m = some va →
    s.core.token.balance va.pendingVault ≤ s'.core.token.balance va.pendingVault ∨
      ∃ k r, s.core.Returns s'.core k r ∧ r.assetMintAddress = m ∧
        s'.core.token.balance va.pendingVault + r.amount = s.core.token.balance va.pendingVault
  apart : b.On s m → s.core.Leaves s'.core

theorem ManagedState.InOrder.closed (hs : s.InOrder) (hp : s.core.PrimaryClaims)
    {b : ManagedAction} (hb : b.Unmanaged) (hm : m ≠ s.core.vault.assetMint)
    (h : AsyncVault.execManaged verify s b = .ok s') : s.Closed s' b m := by
  have hw := hs.ledgered.wellFormed
  have hescrow : ∀ va, s.core.vaultAssets m = some va →
      s.core.terms.pendingVaultOf m = some va.pendingVault := by
    intro va hva
    have hm' : s.core.vault.assetMint ≠ m := hm.symm
    simp [Terms.pendingVaultOf, hm', VaultState.terms, hva, VaultAsset.terms]
  -- a venue instruction writes neither the requests nor an escrow, a policy one not even tokens
  cases b with
  | core b =>
    simp only [AsyncVault.execManaged, bind_eq_ok, pure_eq_ok] at h
    obtain ⟨c, hc, rfl⟩ := h
    exact ⟨fun k r hr ht hstate hasset => exec_deposit hw hr ht hstate (hasset ▸ hm) hc,
      fun va hva => exec_escrow hw hp hm (hescrow va hva) hc,
      fun hon => exec_on hw hp hon hm hc⟩
  | venue i =>
    have hmoved := execVenue_moved hs.toCustodial h
    refine ⟨fun k r hr _ _ _ => .inl ⟨r.operator, ?_⟩,
      fun va hva => .inl (hmoved.escrow m _ (hescrow va hva)), fun _ => ⟨hmoved.assets, ?_,
      fun x => .of_mints hmoved.mints⟩⟩
    · rw [hmoved.requests]
      exact hr
    · have hasset : s'.core.vault.assetMint = s.core.vault.assetMint :=
        congrArg Terms.assetMint hmoved.terms
      have hreserved := hmoved.reserved s.core.vault.assetMint
      rwa [reserved_primary hasset, reserved_primary rfl] at hreserved
  | policy i =>
    obtain ⟨policies, pending, rfl⟩ := execPolicy_still h
    exact ⟨fun k r hr _ _ _ => .inl ⟨r.operator, hr⟩, fun va hva => .inl le_rfl,
      fun hon => hon.elim⟩
  | manageVault => exact hb.elim

/-! ### Runs -/

theorem ManagedState.FailsClosed.execManaged (hs : s.InOrder) (hc : s.FailsClosed)
    {b : ManagedAction} (hb : b.Unmanaged) (h : AsyncVault.execManaged verify s b = .ok s') :
    s'.FailsClosed := by
  have hcoherent := hs.valid.coherent
  refine ⟨?_, (execManaged_metered hcoherent hc.unstocked h).1⟩
  cases b with
  | core b =>
    simp only [AsyncVault.execManaged, bind_eq_ok, pure_eq_ok] at h
    obtain ⟨c, hexec, rfl⟩ := h
    exact exec_primaryClaims hs.ledgered.wellFormed hc.claims hexec
  | venue i =>
    have hkept := execVenue_kept hcoherent h
    intro k r hr hclaimable
    rw [hkept.requests] at hr
    have hasset : s'.core.vault.assetMint = s.core.vault.assetMint :=
      congrArg Terms.assetMint hkept.terms
    rw [hasset]
    exact hc.claims k r hr hclaimable
  | policy i =>
    obtain ⟨policies, pending, rfl⟩ := execPolicy_still h
    exact hc.claims
  | manageVault => exact hb.elim

theorem ManagedState.Created.failsClosed (h : s.Created) : s.FailsClosed := by
  obtain ⟨w, ctx, args, hcreate⟩ := h.core
  obtain ⟨-, -, -, hassets, hrequests⟩ := createVault_state hcreate
  refine ⟨fun k r hr => ?_, fun m va hva => ?_⟩
  · rw [hrequests] at hr
    cases hr
  · rw [hassets] at hva
    cases hva

/-- No deployment of another asset moves anything. -/
theorem ManagedState.FailsClosed.deploy (hs : s.InOrder) (hc : s.FailsClosed)
    {ctx : VenuePosition} {amount : ℕ} (hm : ctx.assetMint ≠ s.core.vault.assetMint)
    (h : deployVenuePosition s ctx amount = .ok s') : amount = 0 := by
  have hidle := (deployVenuePosition_holdings hs.valid.coherent h ctx.assetMint).1
  have hnone : s.core.holdings ctx.assetMint = (0, 0) := by
    cases hva : s.core.vaultAssets ctx.assetMint with
    | none => simp [VaultState.holdings, hva]
    | some va => simp [VaultState.holdings, hva, hc.unstocked _ va hva]
  rw [hnone, VaultState.shift, if_pos ⟨rfl, hm⟩] at hidle
  omega

/-- **Secondary assets fail closed.**  In every run without managed calls, of a vault with any
other assets listed, nothing in another asset is ever claimable and its two balances stay at
zero, so that no deployment of any of it succeeds; every step returns its deposits in full or
leaves them, and no instruction on it mints shares, but to give back what a redemption burned, or
moves the two amounts of the primary asset. -/
theorem secondary_assets_fail_closed {s₀ : ManagedState}
    {tr : List (Transition ManagedState ManagedAction)} (h₀ : s₀.Created)
    (hrun : ManagedRun verify s₀ tr s) (hu : ∀ t ∈ tr, t.act.Unmanaged) :
    s.FailsClosed ∧
      (∀ ctx amount s', ctx.assetMint ≠ s.core.vault.assetMint → 0 < amount →
        execManaged verify s (.venue (.deployVenuePosition ctx amount)) ≠ .ok s') ∧
      ∀ t ∈ tr, ∀ m, m ≠ t.pre.core.vault.assetMint → t.pre.Closed t.post t.act m := by
  have hinv : ∀ {tr s}, ManagedRun verify s₀ tr s → (∀ t ∈ tr, t.act.Unmanaged) →
      s.InOrder ∧ s.FailsClosed := fun hrun hu =>
    Run.invariant_of_forall (I := fun s => s.InOrder ∧ s.FailsClosed)
      (Q := fun t => t.act.Unmanaged)
      (fun _ _ _ hs hb he => ⟨hs.1.execManaged hb he, hs.2.execManaged hs.1 hb he⟩)
      hrun hu ⟨h₀.inOrder, h₀.failsClosed⟩
  obtain ⟨hs, hclosed⟩ := hinv hrun hu
  refine ⟨hclosed, fun ctx amount s' hm hpos h => ?_, fun t ht m hm => ?_⟩
  · exact hpos.ne' (hclosed.deploy hs hm h)
  · obtain ⟨tr₁, tr₂, htr, hpre, he⟩ := hrun.exists_prefix ht
    obtain ⟨hs', hclosed'⟩ := hinv hpre fun t' ht' => hu t' (by
      rw [htr]
      exact List.mem_append_left _ ht')
    exact hs'.closed hclosed'.claims (hu t ht) hm he

namespace Scenario

/-- The user, with fifty units of a second asset, deposits thirty of them and takes them back. -/
def depositSecondAndCancel : List Action :=
  queueAndSecondAsset ++ [start,
    .world (.initializeAccount .token (address 29) secondAsset user),
    .world (.mintTo issuer .token secondAsset (address 29) 50),
    .request (.createDepositRequest
      { user := user
        assetMint := secondAsset
        shareMint := senior
        vaultAsset := some secondAsset
        request := address 101
        userTokenAccount := address 29
        pendingVault := address 26
        assetTokenProgram := .token } ⟨30, none⟩) trancheAccounts,
    .request (.cancelRequest user
      { assetMint := secondAsset
        shareMint := senior
        vaultAsset := some secondAsset
        request := address 101
        userTokenAccount := some (address 29)
        assetPendingVault := some (address 26)
        userShareAccount := none
        shareTokenProgram := none
        assetTokenProgram := some .token }) trancheAccounts]

end Scenario

open Scenario in
/-- **Non-vacuity.**  Thirty units of a second asset leave their escrow: a deposit was returned. -/
theorem secondary_assets_fail_closed_of_canceled :
    ∃ s₀ tr s, ManagedState.Created s₀ ∧ ManagedRun noCalls s₀ tr s ∧ s.FailsClosed ∧
      ∃ t ∈ tr, t.pre.core.token.balance (address 26) = 30 ∧
        t.post.core.token.balance (address 26) = 0 ∧
        ∃ k r, t.pre.core.Returns t.post.core k r ∧ r.amount = 30 := by
  obtain ⟨s₀, tr, s, h₀, hrun, -, hp⟩ := exists_managed_run (depositSecondAndCancel.map .core)
    (fun tr _ => (tr.all fun t => decide t.act.Unmanaged) && tr.any fun t =>
      decide (secondAsset ≠ t.pre.core.vault.assetMint) &&
      (t.pre.core.vaultAssets secondAsset).any (fun va => va.pendingVault = address 26) &&
      decide (t.pre.core.token.balance (address 26) = 30) &&
      decide (t.post.core.token.balance (address 26) = 0)) (by decide +kernel)
  simp only [Bool.and_eq_true, List.all_eq_true, List.any_eq_true, Option.any_eq_true,
    decide_eq_true_eq] at hp
  obtain ⟨hu, t, ht, ⟨⟨hm, va, hva, hescrow⟩, hbefore⟩, hafter⟩ := hp
  obtain ⟨hclosed, -, hsteps⟩ := secondary_assets_fail_closed h₀ hrun hu
  refine ⟨s₀, tr, s, h₀, hrun, hclosed, t, ht, hbefore, hafter, ?_⟩
  have hstep := (hsteps t ht secondAsset hm).escrow va hva
  rw [hescrow, hbefore, hafter] at hstep
  rcases hstep with hle | ⟨k, r, hreturns, -, hamount⟩
  · exact absurd hle (by decide)
  · exact ⟨k, r, hreturns, by omega⟩

end AsyncVault
