/-
AsyncVault/Exits.lean

How the owner of a pending request gets out.

Three instructions cancel a pending request, and each takes its own requests: a
request without a place in a queue, a queued deposit, a queued redemption.
Whether one of them works is decided by the state (`Cancelable`): the mints are
there, the token program can return exactly what was taken to the owner's
account, and a queued redemption is of the primary asset.  The last condition is the account
constraint of `CancelQueuedRedemptionRequest`, which no other instruction makes
up for.
-/
import AsyncVault.Custody
import AsyncVault.Escrow
import AsyncVault.ManagedScenario

namespace AsyncVault

open Checked TokenLedger KeyedStore Machine

variable {s s' : VaultState} {k m a v : Pubkey} {r : Request} {remaining : List AccountInfo}

/-! ### Getting out -/

/-- The mint of what a request took. -/
def Request.takenMint (r : Request) : Pubkey :=
  match r.requestType with
  | .deposit => r.assetMintAddress
  | .redeem => r.shareMintAddress

/-- Exactly what the request took is back in the account `a`: assets out of their escrow, or
burned shares. -/
def Request.Returned (r : Request) (s s' : VaultState) (a : Pubkey) : Prop :=
  s'.token.balance a = s.token.balance a + r.amount ∧
    match r.requestType with
    | .deposit => ∃ v, s.terms.pendingVaultOf r.assetMintAddress = some v ∧
        s'.token.balance v + r.amount = s.token.balance v
    | .redeem =>
      s'.token.supply r.shareMintAddress = s.token.supply r.shareMintAddress + r.amount

/-- The instruction is one of the three that cancel, called by `owner` on the request at `k`. -/
def RequestInstruction.Cancels (i : RequestInstruction) (owner k : Pubkey) : Prop :=
  match i with
  | .cancelRequest user ctx => user = owner ∧ ctx.request = k
  | .cancelQueuedDepositRequest ctx => ctx.user = owner ∧ ctx.request = k
  | .cancelQueuedRedemptionRequest ctx => ctx.user = owner ∧ ctx.request = k
  | _ => False

/-- Some cancel instruction of the owner succeeds and returns what the request took. -/
def VaultState.CanExit (s : VaultState) (k : Pubkey) (r : Request) (a : Pubkey) : Prop :=
  ∃ i remaining s', RequestInstruction.Cancels i r.owner k ∧
    execRequest s i remaining = .ok s' ∧ r.Returned s s' a

/-! ### When -/

/-- The token program can return exactly what the request took to the account `a`: the assets of
a deposit out of their escrow, or new shares for those burned.  The mint and the accounts let it
through. -/
def VaultState.CanReturn (s : VaultState) (r : Request) (a : Pubkey) : Prop :=
  match r.requestType with
  | .deposit => ∃ y v, s.token.mints r.assetMintAddress = some y ∧ y.transferFee r.amount = 0 ∧
      s.terms.pendingVaultOf r.assetMintAddress = some v ∧
      s.token.Holds v r.assetMintAddress s.key ∧ r.amount ≤ s.token.balance v ∧
      s.token.Transferable r.assetMintAddress ∧ s.token.Thawed v ∧ s.token.Receptive a
  | .redeem => ∃ y, s.token.mints r.shareMintAddress = some y ∧
      y.mintAuthority = some s.key ∧ y.confidentialMintBurn = false ∧
      y.supply + r.amount < 2 ^ 64 ∧ s.token.Running r.shareMintAddress ∧ s.token.Thawed a

/-- A redemption with a place in a queue is of the primary asset. -/
def VaultState.ServesQueued (s : VaultState) (r : Request) : Prop :=
  r.requestType = .redeem → r.redemptionQueueId.isSome → r.assetMintAddress = s.vault.assetMint

structure VaultState.Cancelable (s : VaultState) (r : Request) (a : Pubkey) : Prop where
  assetMint : (s.token.mints r.assetMintAddress).isSome
  shareMint : (s.token.mints r.shareMintAddress).isSome
  canReturn : s.CanReturn r a
  servesQueued : s.ServesQueued r

/-! ### The checks pass -/

/-- The remaining account a tranche vault wants; a plain vault ignores it. -/
def VaultState.trancheInfo (s : VaultState) : List AccountInfo := [{ key := s.trancheConfigPda }]

/-- A share mint of the vault is accepted. -/
theorem exists_validateRequestShareMint (hc : s.terms.Coherent) (hm : m ∈ s.terms.shareMints) :
    ∃ context, validateRequestShareMint s m s.trancheInfo = .ok context := by
  cases htc : s.trancheConfig with
  | none =>
    have hplain : s.vault.trancheConfig = none := hc.plain (by simp [VaultState.terms, htc])
    have hshare : m = s.vault.shareMint := by
      simpa [Terms.shareMints, VaultState.terms, htc] using hm
    exact ⟨⟨0, none, none⟩, by
      simp [validateRequestShareMint, hplain, hshare, ensure, require]⟩
  | some tc =>
    obtain ⟨hpda, hvalid⟩ := hc.tranched tc.terms (by simp [VaultState.terms, htc])
    have hpda : s.vault.trancheConfig = some s.trancheConfigPda := hpda
    have hvault : tc.vault = s.key := hvalid.vault
    have hload : s.loadTrancheConfig { key := s.trancheConfigPda } = .ok tc := by
      simp [VaultState.loadTrancheConfig, htc]
    have hmem : m = tc.seniorShareMint ∨ m = tc.juniorShareMint := by
      simpa [Terms.shareMints, VaultState.terms, htc, TrancheConfig.terms] using hm
    have hnav : ∃ nav, (if m = tc.seniorShareMint then pure tc.seniorNav
        else if m = tc.juniorShareMint then pure tc.juniorNav
        else .error (.async .invalidShareMint) : Result ℕ) = .ok nav := by
      by_cases hs : m = tc.seniorShareMint
      · exact ⟨_, by rw [if_pos hs]; rfl⟩
      · exact ⟨_, by rw [if_neg hs, if_pos (hmem.resolve_left hs)]; rfl⟩
    obtain ⟨nav, hnav⟩ := hnav
    refine ⟨⟨1, some nav, some tc.requestInfo⟩, ?_⟩
    simp only [validateRequestShareMint, hpda, bind_eq_ok, okOr_eq_ok, ensure_eq_ok, pure_eq_ok]
    exact ⟨_, rfl, (), rfl, (), trivial, tc, hload, (), hvault, nav, hnav, rfl⟩

/-- The mints of a request in order are accepted as its own. -/
theorem exists_checkRequestMints (hc : s.terms.Coherent) (hok : s.RequestOk r)
    (hasset : (s.token.mints r.assetMintAddress).isSome)
    (hshare : (s.token.mints r.shareMintAddress).isSome) :
    ∃ context, checkRequestMints s r.assetMintAddress r.shareMintAddress r s.trancheInfo =
      .ok context := by
  obtain ⟨x, hx⟩ := Option.isSome_iff_exists.1 hasset
  obtain ⟨y, hy⟩ := Option.isSome_iff_exists.1 hshare
  obtain ⟨context, hcontext⟩ := exists_validateRequestShareMint hc hok.shareMint
  refine ⟨context, ?_⟩
  simp only [checkRequestMints, bind_eq_ok, VaultState.mintAccount_eq_ok, ensure_eq_ok]
  exact ⟨x, hx, y, hy, (), trivial, (), trivial, hcontext⟩

/-- The escrow account of an asset is accepted, whether the asset is primary or registered. -/
theorem checkPendingVault_eq_ok (hc : s.terms.Coherent)
    (hv : s.terms.pendingVaultOf m = some v) : checkPendingVault s m (some m) v = .ok () := by
  unfold checkPendingVault
  by_cases hm : s.vault.assetMint = m
  · have hv' : s.vault.pendingVault = v := by
      simpa [Terms.pendingVaultOf, VaultState.terms, hm] using hv
    simp [Vault.isPrimaryAsset, hm, hv', ensure]
  · obtain ⟨va, hva, hva'⟩ : ∃ va, s.vaultAssets m = some va ∧ va.pendingVault = v := by
      simpa [Terms.pendingVaultOf, VaultState.terms, hm, VaultAsset.terms] using hv
    obtain ⟨hvault, hasset, -⟩ := hc.assets m va.terms (by simp [VaultState.terms, hva])
    rw [if_neg (show ¬s.vault.isPrimaryAsset m = true by simp [Vault.isPrimaryAsset, hm])]
    simp only [VaultState.secondaryAsset, VaultAsset.assertMatches, VaultAsset.assertPendingVault,
      bind_eq_ok, okOr_eq_ok, ensure_eq_ok, pure_eq_ok]
    exact ⟨va, ⟨m, rfl, va, hva, (), ⟨(), hvault, hasset⟩, rfl⟩, hva'⟩

/-- What a tally counts can be released. -/
theorem exists_subPendingDeposit (hv : s.terms.pendingVaultOf m = some v) {n : ℕ}
    (hn : n ≤ s.reserved m) : ∃ s', subPendingDeposit s m (some m) n = .ok s' := by
  unfold subPendingDeposit
  by_cases hm : s.vault.assetMint = m
  · rw [reserved_primary hm] at hn
    rw [if_pos (show s.vault.isPrimaryAsset m = true by simp [Vault.isPrimaryAsset, hm])]
    simp only [bind_eq_ok, sub_eq_ok, pure_eq_ok]
    exact ⟨_, _, ⟨hn, rfl⟩, rfl⟩
  · obtain ⟨va, hva, -⟩ : ∃ va, s.vaultAssets m = some va ∧ va.pendingVault = v := by
      simpa [Terms.pendingVaultOf, VaultState.terms, hm, VaultAsset.terms] using hv
    rw [reserved_secondary hm hva] at hn
    rw [if_neg (show ¬s.vault.isPrimaryAsset m = true by simp [Vault.isPrimaryAsset, hm])]
    simp only [bind_eq_ok, okOr_eq_ok, sub_eq_ok, pure_eq_ok]
    exact ⟨_, m, rfl, va, hva, _, ⟨hn, rfl⟩, rfl⟩

/-! ### The refund -/

/-- A pending deposit is reserved. -/
theorem Tallied.le_reserved (h : Tallied s) (hr : s.requests.lookup k = some r)
    (hp : r.requestState = .pending) (ht : r.requestType = .deposit) :
    r.amount ≤ s.reserved r.assetMintAddress := by
  have hle := le_total (w := (Request.reserves · r.assetMintAddress)) hr
  simpa [Request.reserves_deposit ht hp, h.reserved] using hle

/-- The assets of a pending deposit go back in full when the escrow can pay them and no transfer
fee is withheld. -/
theorem exists_refund_deposit (h : Tallied s) (hr : s.requests.lookup k = some r)
    (hp : r.requestState = .pending) (ht : r.requestType = .deposit) {c : RefundAccounts}
    {y : Mint Pubkey} (hy : s.token.mints r.assetMintAddress = some y)
    (hfee : y.transferFee r.amount = 0)
    (hm : s.token.Transferable r.assetMintAddress)
    (hescrow : s.terms.pendingVaultOf r.assetMintAddress = some v)
    (hv : s.token.Holds v r.assetMintAddress s.key) (hvt : s.token.Thawed v)
    (hle : r.amount ≤ s.token.balance v)
    (ha : s.token.Holds a r.assetMintAddress r.owner) (hat : s.token.Receptive a)
    (hasset : c.assetMint = r.assetMintAddress)
    (hvaultAsset : c.vaultAsset = some r.assetMintAddress)
    (hpending : c.assetPendingVault = some v) (huser : c.userTokenAccount = some a)
    (hprogram : c.assetTokenProgram = some y.program) :
    ∃ s', refund s c r = .ok s' ∧ r.Returned s s' a := by
  have hne : v ≠ a := hv.ne_of_owner ha (h.requests _ _ hr).owner.symm
  -- the three steps of the refund: the transfer and the two counters
  obtain ⟨token, htoken⟩ := exists_transferChecked hy rfl hm hv ha hvt hat hle
  obtain ⟨s₁, h₁⟩ := exists_subPendingDeposit hescrow (h.le_reserved hr hp ht)
  have hcheck := checkPendingVault_eq_ok h.coherent hescrow
  have hsub := subPendingDeposit_ok h₁ (checkPendingVault_ok h.coherent hcheck).2
  obtain ⟨s₂, h₂⟩ := h.exists_decrement hr hp (t := s₁.put token s₁.requests)
    (congrArg OrderBook.Book.openCount hsub.book)
  have htoken₂ : s₂.token = token := (decrementPendingRequests_ok h₂).token
  have hmove := transferChecked_ok htoken
  have hnamed : c.vaultAsset = some c.assetMint := by rw [hasset, hvaultAsset]
  rw [← hasset] at hv hcheck ha htoken h₁
  rw [← hnamed] at hcheck h₁
  refine ⟨s₂, (refund_deposit_iff ht).2
    ⟨v, a, _, token, s₁, hpending, hv, hcheck, huser, ha, hprogram, htoken, h₁, h₂⟩, ?_⟩
  -- without a fee the whole amount arrives
  obtain ⟨y', hy', -, hdst⟩ := hmove.balance_dst hne
  obtain rfl : y' = y := Option.some.inj (hy'.symm.trans hy)
  simp only [Request.Returned, ht, htoken₂]
  exact ⟨by rw [hdst, hfee, Nat.sub_zero], v, hescrow, hmove.balance_src hne⟩

/-- The shares of a pending redemption go back in full when the vault may mint them and there is
room for them. -/
theorem exists_refund_redeem (h : Tallied s) (hr : s.requests.lookup k = some r)
    (hp : r.requestState = .pending) (ht : r.requestType = .redeem) {c : RefundAccounts}
    {y : Mint Pubkey} (hy : s.token.mints r.shareMintAddress = some y)
    (hauth : y.mintAuthority = some s.key) (hconf : y.confidentialMintBurn = false)
    (hroom : y.supply + r.amount < 2 ^ 64) (hm : s.token.Running r.shareMintAddress)
    (ha : s.token.Holds a r.shareMintAddress r.owner) (hat : s.token.Thawed a)
    (hshare : c.shareMint = r.shareMintAddress) (huser : c.userShareAccount = some a)
    (hprogram : c.shareTokenProgram = some y.program) :
    ∃ s', refund s c r = .ok s' ∧ r.Returned s s' a := by
  obtain ⟨token, htoken⟩ := exists_mintTo hy rfl hm ha hat hconf hauth hroom
  obtain ⟨s₁, h₁⟩ := h.exists_decrement hr hp (t := s.put token s.requests) rfl
  have htoken₁ : s₁.token = token := (decrementPendingRequests_ok h₁).token
  have hminted := mintTo_ok htoken
  rw [← hshare] at ha htoken
  refine ⟨s₁, (refund_redeem_iff ht).2 ⟨a, _, token, huser, ha, hprogram, htoken, h₁⟩, ?_⟩
  simp only [Request.Returned, ht, htoken₁]
  exact ⟨hminted.balance_dst, hminted.supply⟩

/-- A refund that returned exactly what was taken could. -/
theorem canReturn_of_refund (hs : Tallied s) (hr : s.requests.lookup k = some r)
    (hp : r.requestState = .pending) {ctx : RefundAccounts}
    (hasset : r.assetMintAddress = ctx.assetMint) (hshare : r.shareMintAddress = ctx.shareMint)
    (ha : s.token.Holds a r.takenMint r.owner) (h : refund s ctx r = .ok s')
    (hreturned : r.Returned s s' a) : s.CanReturn r a := by
  have hpos := hs.positive k r hr hp
  have hne : r.owner ≠ s.key := (hs.requests k r hr).owner
  unfold VaultState.CanReturn
  cases ht : r.requestType with
  | deposit =>
    obtain ⟨v, dst, program, token, s₁, h⟩ := (refund_deposit_iff ht).1 h
    have hcheck := h.named
    have htoken := h.paid
    have hv := h.escrow
    have hd := h.holds
    rw [← hasset] at hcheck htoken hv hd
    obtain ⟨hescrow, -⟩ := checkPendingVault_ok hs.coherent hcheck
    have hpay :
        s.token.pay s.key (.transfer program v r.assetMintAddress dst r.amount) = .ok token :=
      htoken
    obtain ⟨-, ⟨hm, hvt, hdt⟩, -⟩ := sound_of_pay hpay
    have hmove := transferChecked_ok htoken
    have hvd : v ≠ dst := hv.ne_of_owner hd hne.symm
    have htoken₂ : s'.token = token := (decrementPendingRequests_ok h.counted).token
    obtain ⟨y, hy, -, hdst⟩ := hmove.balance_dst hvd
    have hback := hreturned.1
    rw [htoken₂] at hback
    -- the account that got the amount is the one it was paid to
    have had : a = dst := by
      by_contra had
      rw [hmove.balance_of_ne a (hv.ne_of_owner ha hne.symm).symm had] at hback
      omega
    rw [had, hdst] at hback
    exact ⟨y, v, hy, by omega, hescrow, hv, hmove.le_balance, hm, hvt, had ▸ hdt⟩
  | redeem =>
    obtain ⟨dst, program, token, h⟩ := (refund_redeem_iff ht).1 h
    have htoken := h.minted
    rw [← hshare] at htoken
    have hpay : s.token.pay s.key (.mint program r.shareMintAddress dst r.amount) = .ok token :=
      htoken
    obtain ⟨-, ⟨hrunning, hdt⟩, -⟩ := sound_of_pay hpay
    have hminted := mintTo_ok htoken
    have htoken₂ : s'.token = token := (decrementPendingRequests_ok h.counted).token
    obtain ⟨y, hy, hauth, hconf⟩ := hminted.authority
    have hroom := hminted.supply_lt
    rw [supply_of_some hy] at hroom
    have hback := hreturned.1
    rw [htoken₂] at hback
    have had : a = dst := by
      by_contra had
      rw [hminted.balance_of_ne a had] at hback
      omega
    exact ⟨y, hy, hauth, hconf, hroom, hrunning, had ▸ hdt⟩

/-! ### The three instructions -/

variable {verify : MerkleCheck} {t : ManagedState}

/-- A cancel instruction that succeeded checked the mints and refunded the request; on a queued
redemption it was the one for the primary asset. -/
theorem refunded_of_cancels {i : RequestInstruction} {owner : Pubkey}
    (hi : i.Cancels owner k) (hr : s.requests.lookup k = some r)
    (h : execRequest s i remaining = .ok s') :
    ∃ ctx context s₁, checkRequestMints s ctx.assetMint ctx.shareMint r remaining = .ok context ∧
      refund s ctx r = .ok s₁ ∧ s'.token = s₁.token ∧
      (r.requestType = .redeem → r.redemptionQueueId.isSome →
        s.vault.assetMint = ctx.assetMint) := by
  cases i <;> try exact hi.elim
  case cancelRequest user ctx =>
    obtain ⟨-, rfl⟩ := hi
    obtain ⟨r', context, s₁, hc⟩ := cancelRequest_iff.1 h
    obtain rfl : r' = r := Option.some.inj (hc.found.symm.trans hr)
    obtain rfl := hc.state
    refine ⟨ctx, context, s₁, hc.mints, hc.refunded, rfl, fun ht hqueued => ?_⟩
    -- the plain instruction refuses a queued redemption
    have hqueue := hc.unqueued
    simp only [validateQueueExtensionConstraints, ht, ensure_eq_ok] at hqueue
    rw [Option.isNone_iff_eq_none.1 hqueue] at hqueued
    cases hqueued
  case cancelQueuedDepositRequest ctx =>
    obtain ⟨-, rfl⟩ := hi
    obtain ⟨r', context, s₁, hc⟩ := cancelQueuedDepositRequest_iff.1 h
    obtain rfl : r' = r := Option.some.inj (hc.found.symm.trans hr)
    obtain rfl := hc.state
    refine ⟨_, context, s₁, hc.mints, hc.refunded, rfl, fun ht _ => ?_⟩
    -- and this one serves deposits only
    rw [hc.type] at ht
    cases ht
  case cancelQueuedRedemptionRequest ctx =>
    obtain ⟨-, rfl⟩ := hi
    obtain ⟨hprimary, r', context, s₁, hc⟩ := cancelQueuedRedemptionRequest_iff.1 h
    obtain rfl : r' = r := Option.some.inj (hc.found.symm.trans hr)
    obtain rfl := hc.state
    exact ⟨_, context, s₁, hc.mints, hc.refunded, rfl, fun _ _ => hprimary⟩

/-- A queued redemption gets out as one of the primary asset only. -/
theorem servesQueued_of_canExit (hr : s.requests.lookup k = some r) (h : s.CanExit k r a) :
    s.ServesQueued r := by
  obtain ⟨i, remaining, s', hi, h, -⟩ := h
  obtain ⟨ctx, context, s₁, hmints, -, -, hqueue⟩ := refunded_of_cancels hi hr h
  exact fun ht hqueued => (checkRequestMints_ok hmints).1.trans (hqueue ht hqueued).symm

/-- Whoever gets out met the conditions. -/
theorem Tallied.cancelable_of_canExit (hs : Tallied s) (hr : s.requests.lookup k = some r)
    (hp : r.requestState = .pending) (ha : s.token.Holds a r.takenMint r.owner)
    (h : s.CanExit k r a) : s.Cancelable r a := by
  have hqueue := servesQueued_of_canExit hr h
  obtain ⟨i, remaining, s', hi, h, hreturned⟩ := h
  obtain ⟨ctx, context, s₁, hmints, hrefund, htoken, -⟩ := refunded_of_cancels hi hr h
  obtain ⟨hasset, hshare⟩ := checkRequestMints_ok hmints
  simp only [checkRequestMints, bind_eq_ok, VaultState.mintAccount_eq_ok] at hmints
  obtain ⟨x, hx, y, hy, -⟩ := hmints
  refine ⟨by rw [hasset, hx]; rfl, by rw [hshare, hy]; rfl, ?_, hqueue⟩
  refine canReturn_of_refund hs hr hp hasset hshare ha hrefund ?_
  simpa only [Request.Returned, htoken] using hreturned

/-- The owner's call of a cancel instruction returns what its refund returns. -/
theorem VaultState.CanExit.intro {i : RequestInstruction} {t u : VaultState}
    (hi : i.Cancels r.owner k) (h : execRequest s i s.trancheInfo = .ok u)
    (htoken : u.token = t.token) (hreturned : r.Returned s t a) : s.CanExit k r a :=
  ⟨i, s.trancheInfo, u, hi, h, by simpa only [Request.Returned, htoken] using hreturned⟩

/-- A cancelable deposit is canceled by the instruction for its place in a queue, or for none. -/
theorem Tallied.deposit_canExit (hs : Tallied s) (hinit : s.vault.initialized = true)
    (hpaused : s.vault.paused = false) (hr : s.requests.lookup k = some r)
    (hp : r.requestState = .pending) (ht : r.requestType = .deposit) (hc : s.Cancelable r a)
    (ha : s.token.Holds a r.assetMintAddress r.owner) : s.CanExit k r a := by
  have hok := hs.requests _ _ hr
  obtain ⟨context, hmints⟩ := exists_checkRequestMints hs.coherent hok hc.assetMint hc.shareMint
  have hreturn := hc.canReturn
  simp only [VaultState.CanReturn, ht] at hreturn
  obtain ⟨y, v, hy, hfee, hescrow, hv, hle, hm, hvt, hat⟩ := hreturn
  by_cases hqueue : r.subscriptionQueueId.isSome
  · -- a queued deposit has its own instruction
    set ctx : CancelQueuedDepositRequest :=
      { user := r.owner
        assetMint := r.assetMintAddress
        shareMint := r.shareMintAddress
        vaultAsset := some r.assetMintAddress
        request := k
        userTokenAccount := a
        assetPendingVault := v
        assetTokenProgram := y.program } with hctx
    obtain ⟨s₁, h₁, hreturned⟩ := exists_refund_deposit hs hr hp ht (c := ctx.refundAccounts)
      hy hfee hm hescrow hv hvt hle ha hat rfl rfl rfl rfl rfl
    refine .intro (i := .cancelQueuedDepositRequest ctx) ⟨rfl, rfl⟩ (t := s₁) (u := s₁.put
      s₁.token (s₁.requests.insert k { r with requestState := .canceled })) ?_ rfl hreturned
    exact cancelQueuedDepositRequest_iff.2 ⟨r, context, s₁, ⟨hr, hok.vault, hp, hmints⟩, hok.owner,
      rfl, ht, ⟨hinit, hpaused⟩, hqueue, h₁, rfl⟩
  -- without a place in a queue the plain instruction takes it
  · set ctx : RefundAccounts :=
      { assetMint := r.assetMintAddress
        shareMint := r.shareMintAddress
        vaultAsset := some r.assetMintAddress
        request := k
        userTokenAccount := some a
        assetPendingVault := some v
        userShareAccount := none
        shareTokenProgram := none
        assetTokenProgram := some y.program } with hctx
    obtain ⟨s₁, h₁, hreturned⟩ := exists_refund_deposit hs hr hp ht (c := ctx) hy hfee hm
      hescrow hv hvt hle ha hat rfl rfl rfl rfl rfl
    refine .intro (i := .cancelRequest r.owner ctx) ⟨rfl, rfl⟩ (t := s₁)
      (u := s₁.put s₁.token (s₁.requests.erase k)) ?_ rfl hreturned
    have hunqueued : validateQueueExtensionConstraints r = .ok () := by
      simpa [validateQueueExtensionConstraints, ht, ensure, require] using hqueue
    exact cancelRequest_iff.2 ⟨r, context, s₁, ⟨hr, hok.vault, hp, hmints⟩, hok.owner, rfl,
      ⟨hinit, hpaused⟩, hunqueued, h₁, rfl⟩

/-- And so is a cancelable redemption. -/
theorem Tallied.redeem_canExit (hs : Tallied s) (hinit : s.vault.initialized = true)
    (hpaused : s.vault.paused = false) (hr : s.requests.lookup k = some r)
    (hp : r.requestState = .pending) (ht : r.requestType = .redeem) (hc : s.Cancelable r a)
    (ha : s.token.Holds a r.shareMintAddress r.owner) : s.CanExit k r a := by
  have hok := hs.requests _ _ hr
  obtain ⟨context, hmints⟩ := exists_checkRequestMints hs.coherent hok hc.assetMint hc.shareMint
  have hreturn := hc.canReturn
  simp only [VaultState.CanReturn, ht] at hreturn
  obtain ⟨y, hy, hauth, hconf, hroom, hm, hat⟩ := hreturn
  by_cases hqueue : r.redemptionQueueId.isSome
  · -- a queued redemption has its own instruction, for the primary asset
    set ctx : CancelQueuedRedemptionRequest :=
      { user := r.owner
        assetMint := r.assetMintAddress
        shareMint := r.shareMintAddress
        request := k
        userShareAccount := a
        shareTokenProgram := y.program } with hctx
    obtain ⟨s₁, h₁, hreturned⟩ := exists_refund_redeem hs hr hp ht (c := ctx.refundAccounts)
      hy hauth hconf hroom hm ha hat rfl rfl rfl
    refine .intro (i := .cancelQueuedRedemptionRequest ctx) ⟨rfl, rfl⟩ (t := s₁) (u := s₁.put
      s₁.token (s₁.requests.insert k { r with requestState := .canceled })) ?_ rfl hreturned
    exact cancelQueuedRedemptionRequest_iff.2 ⟨(hc.servesQueued ht hqueue).symm, r, context, s₁,
      ⟨hr, hok.vault, hp, hmints⟩, hok.owner, rfl, ht, ⟨hinit, hpaused⟩, hqueue, h₁, rfl⟩
  -- without a place in a queue the plain instruction takes it, of any asset
  · set ctx : RefundAccounts :=
      { assetMint := r.assetMintAddress
        shareMint := r.shareMintAddress
        vaultAsset := none
        request := k
        userTokenAccount := none
        assetPendingVault := none
        userShareAccount := some a
        shareTokenProgram := some y.program
        assetTokenProgram := none } with hctx
    obtain ⟨s₁, h₁, hreturned⟩ := exists_refund_redeem hs hr hp ht (c := ctx) hy hauth hconf
      hroom hm ha hat rfl rfl rfl
    refine .intro (i := .cancelRequest r.owner ctx) ⟨rfl, rfl⟩ (t := s₁)
      (u := s₁.put s₁.token (s₁.requests.erase k)) ?_ rfl hreturned
    have hunqueued : validateQueueExtensionConstraints r = .ok () := by
      simpa [validateQueueExtensionConstraints, ht, ensure, require] using hqueue
    exact cancelRequest_iff.2 ⟨r, context, s₁, ⟨hr, hok.vault, hp, hmints⟩, hok.owner, rfl,
      ⟨hinit, hpaused⟩, hunqueued, h₁, rfl⟩

/-- **The owner of a pending request can get out exactly when the request is cancelable.** -/
theorem Tallied.canExit_iff (hs : Tallied s) (hinit : s.vault.initialized = true)
    (hpaused : s.vault.paused = false) (hr : s.requests.lookup k = some r)
    (hp : r.requestState = .pending) (ha : s.token.Holds a r.takenMint r.owner) :
    s.CanExit k r a ↔ s.Cancelable r a := by
  refine ⟨hs.cancelable_of_canExit hr hp ha, fun hc => ?_⟩
  cases ht : r.requestType with
  | deposit =>
    rw [show r.takenMint = r.assetMintAddress by simp [Request.takenMint, ht]] at ha
    exact hs.deposit_canExit hinit hpaused hr hp ht hc ha
  | redeem =>
    rw [show r.takenMint = r.shareMintAddress by simp [Request.takenMint, ht]] at ha
    exact hs.redeem_canExit hinit hpaused hr hp ht hc ha

/-! ### While the vault keeps its tokens -/

/-- What can still hold the owner back: a transfer fee on the asset, no room left in the supply
of the shares, the issuer's pause, hook or freeze, a memo the owner asks for, or a queued
redemption of another asset. -/
structure VaultState.Unhindered (s : VaultState) (r : Request) (a : Pubkey) : Prop where
  fee : r.requestType = .deposit →
    ∀ y, s.token.mints r.assetMintAddress = some y → y.transferFee r.amount = 0
  transferable : r.requestType = .deposit → s.token.Transferable r.assetMintAddress
  escrowThawed : r.requestType = .deposit →
    ∀ v, s.terms.pendingVaultOf r.assetMintAddress = some v → s.token.Thawed v
  receptive : r.requestType = .deposit → s.token.Receptive a
  room : r.requestType = .redeem → s.token.supply r.shareMintAddress + r.amount < 2 ^ 64
  running : r.requestType = .redeem → s.token.Running r.shareMintAddress
  thawed : r.requestType = .redeem → s.token.Thawed a
  servesQueued : s.ServesQueued r

theorem VaultState.Refundable.lasting (h : s.Refundable r) (hl : Lasting s.token s'.token) :
    s'.Refundable r where
  positive := h.positive
  assetMint := by
    obtain ⟨y, hy⟩ := Option.isSome_iff_exists.1 h.assetMint
    obtain ⟨y', hy', -⟩ := hl _ y hy
    rw [hy']
    rfl
  shareMint ht := by
    obtain ⟨y, hy, hconf⟩ := h.shareMint ht
    obtain ⟨y', hy', he⟩ := hl _ y hy
    exact ⟨y', hy', he.trans hconf⟩

/-- Every pending request can be refunded, as far as its mints are concerned. -/
def VaultState.AllRefundable (s : VaultState) : Prop :=
  ∀ k r, s.requests.lookup k = some r → r.requestState = .pending → s.Refundable r

/-- Where no request came and no mint went, all stay refundable. -/
theorem VaultState.AllRefundable.lasting (h : s.AllRefundable) (hl : Lasting s.token s'.token)
    (hr : s'.requests = s.requests) : s'.AllRefundable := by
  intro k r hk hp
  rw [hr] at hk
  exact (h k r hk hp).lasting hl

/-- A new request is refundable, and the others stay so. -/
theorem Tally.allRefundable (ht : Tally s s') (h : s.AllRefundable)
    (hl : Lasting s.token s'.token) : s'.AllRefundable := by
  intro k' r' hk hp
  cases ht with
  -- what opening checked makes the new request refundable
  | @opened k r fresh ok pending refundable initialized requests counted =>
    rw [requests] at hk
    by_cases hkk : k' = k
    · subst hkk
      obtain rfl : r = r' := by simpa using hk
      exact refundable.lasting hl
    · rw [AList.lookup_insert_ne hkk] at hk
      exact (h k' r' hk hp).lasting hl
  | @closed k r found pending requests counted =>
    rcases requests with he | ⟨r₁, he, hstate, -⟩
    · rw [he] at hk
      exact (h k' r' (VaultState.lookup_of_erase hk) hp).lasting hl
    · rw [he] at hk
      by_cases hkk : k' = k
      · subst hkk
        obtain rfl : r₁ = r' := by simpa using hk
        -- the record left behind is no longer pending
        exact absurd hp hstate
      · rw [AList.lookup_insert_ne hkk] at hk
        exact (h k' r' hk hp).lasting hl
  | @noted k r found requests counted =>
    rcases requests with ⟨-, he⟩ | ⟨operator, he⟩
    · rw [he] at hk
      exact (h k' r' (VaultState.lookup_of_erase hk) hp).lasting hl
    · rw [he] at hk
      by_cases hkk : k' = k
      · subst hkk
        obtain rfl : { r with operator := operator } = r' := by simpa using hk
        -- an operator has no part in the conditions
        have hold := (h k' r found hp).lasting hl
        exact ⟨hold.positive, hold.assetMint, hold.shareMint⟩
      · rw [AList.lookup_insert_ne hkk] at hk
        exact (h k' r' hk hp).lasting hl

variable {t₀ t t' : ManagedState} {verify : MerkleCheck}
variable {tr : List (Transition ManagedState ManagedAction)}

/-- Every step without a managed call keeps the pending requests refundable. -/
theorem execManaged_allRefundable (hs : Custodial t) (h : t.core.AllRefundable) {b : ManagedAction}
    (hb : b.Unmanaged) (he : execManaged verify t b = .ok t') : t'.core.AllRefundable := by
  have hw := hs.ledgered.wellFormed
  cases b with
  | core b =>
    simp only [execManaged, bind_eq_ok, pure_eq_ok] at he
    obtain ⟨c, hc, rfl⟩ := he
    have hl := (exec_spared hw hc).lasting
    cases b with
    | request i remaining =>
      exact (execRequest_tally hw.terms.coherent hw.requests hc).2.allRefundable h hl
    | _ => exact h.lasting hl (exec_requests hw.minting hc (by rintro _ _ ⟨⟩))
  | venue i =>
    have hm := execVenue_moved hs he
    exact h.lasting (.of_eq hm.mints) hm.requests
  | policy i =>
    rw [execPolicy_core he]
    exact h
  | manageVault => exact hb.elim

theorem ManagedRun.allRefundable (hrun : ManagedRun verify t₀ tr t) (h₀ : t₀.Created)
    (hu : ∀ x ∈ tr, x.act.Unmanaged) : t.core.AllRefundable := by
  refine (hrun.invariant_of_forall (Q := fun x => x.act.Unmanaged)
    (I := fun t => Custodial t ∧ t.core.AllRefundable)
    (fun _ _ _ hs hb he => ⟨hs.1.execManaged hb he, execManaged_allRefundable hs.1 hs.2 hb he⟩) hu
    ⟨h₀.custodial, ?_⟩).2
  intro k r hk
  obtain ⟨w, ctx, args, hcreate⟩ := h₀.core
  obtain ⟨-, -, -, -, hempty⟩ := createVault_state hcreate
  rw [hempty] at hk
  cases hk

/-- **With its tokens in the vault's hands, a request is cancelable when nothing hinders it.** -/
theorem Custodial.cancelable_iff (hs : Custodial t) (hr : t.core.requests.lookup k = some r)
    (hp : r.requestState = .pending) (hf : t.core.Refundable r) :
    t.core.Cancelable r a ↔ t.core.Unhindered r a := by
  have hv := hs.valid
  have hok := hs.ledgered.wellFormed.requests _ _ hr
  obtain ⟨z, hz, hauth⟩ := hv.mintable _ hok.shareMint
  constructor
  · intro h
    have hreturn := h.canReturn
    unfold VaultState.CanReturn at hreturn
    cases ht : r.requestType with
    | deposit =>
      simp only [ht] at hreturn
      obtain ⟨y, v, hy, hfee, hescrow, -, -, hm, hvt, hat⟩ := hreturn
      -- the conditions on shares say nothing about a deposit
      have hne : r.requestType ≠ .redeem := by
        rw [ht]
        decide
      refine ⟨fun _ y' hy' => ?_, fun _ => hm, fun _ v' hv' => ?_, fun _ => hat,
        fun h => absurd h hne, fun h => absurd h hne, fun h => absurd h hne, h.servesQueued⟩
      · obtain rfl := Option.some.inj (hy.symm.trans hy')
        exact hfee
      · obtain rfl := Option.some.inj (hescrow.symm.trans hv')
        exact hvt
    | redeem =>
      simp only [ht] at hreturn
      obtain ⟨y, hy, -, -, hroom, hrunning, hat⟩ := hreturn
      have hne : r.requestType ≠ .deposit := by
        rw [ht]
        decide
      refine ⟨fun h => absurd h hne, fun h => absurd h hne, fun h => absurd h hne,
        fun h => absurd h hne, fun _ => ?_, fun _ => hrunning, fun _ => hat, h.servesQueued⟩
      rwa [supply_of_some hy]
  · intro h
    refine ⟨hf.assetMint, by rw [hz]; rfl, ?_, h.servesQueued⟩
    unfold VaultState.CanReturn
    cases ht : r.requestType with
    | deposit =>
      obtain ⟨y, hy⟩ := Option.isSome_iff_exists.1 hf.assetMint
      -- custody gives the escrow, its balance and the authority; the rest is what hinders
      have hcovered := hs.ledgered.covered hr hp
      have hescrow : ∃ v, t.core.terms.pendingVaultOf r.assetMintAddress = some v := by
        have hle := hcovered.reserved ht
        have hpos := hf.positive
        by_cases hm : t.core.vault.assetMint = r.assetMintAddress
        · exact ⟨t.core.vault.pendingVault, by simp [Terms.pendingVaultOf, VaultState.terms, hm]⟩
        · -- something is reserved in the asset, so it is registered
          cases hva : t.core.vaultAssets r.assetMintAddress with
          | none => simp [VaultState.reserved, hm, hva] at hle; omega
          | some va =>
            exact ⟨va.pendingVault, by
              simp [Terms.pendingVaultOf, VaultState.terms, hm, hva, VaultAsset.terms]⟩
      obtain ⟨v, hescrow⟩ := hescrow
      exact ⟨y, v, hy, h.fee ht y hy, hescrow, hv.holds_pendingVaultOf hescrow,
        hcovered.escrow ht v hescrow, h.transferable ht, h.escrowThawed ht v hescrow,
        h.receptive ht⟩
    | redeem =>
      obtain ⟨y, hy, hconf⟩ := hf.shareMint ht
      have hyz : y = z := Option.some.inj (hy.symm.trans hz)
      have hroom := h.room ht
      rw [supply_of_some hz] at hroom
      exact ⟨z, hz, hauth, hyz ▸ hconf, hroom, h.running ht, h.thawed ht⟩

/-! ### Every reachable state -/

/-- **Getting out of a pending request.**  In every state a run reaches, while the vault is
initialised and not paused, some cancel instruction of the owner returns exactly what was taken
if and only if the request is cancelable; and where the run made no managed call, if and only if
the asset of a deposit withholds no fee and its issuer lets the amount through, the shares of a
redemption have room in their supply and may be minted to the owner, and a queued redemption is
of the primary asset. -/
theorem owner_gets_out (h₀ : t₀.Created) (hrun : ManagedRun verify t₀ tr t)
    (hinit : t.core.vault.initialized = true) (hpaused : t.core.vault.paused = false)
    (hr : t.core.requests.lookup k = some r) (hp : r.requestState = .pending)
    (ha : t.core.token.Holds a r.takenMint r.owner) :
    (t.core.CanExit k r a ↔ t.core.Cancelable r a) ∧
      ((∀ x ∈ tr, x.act.Unmanaged) → (t.core.CanExit k r a ↔ t.core.Unhindered r a)) := by
  have hreach : t.IsReachable verify := ⟨t₀, tr, h₀, hrun⟩
  have hiff := hreach.tallied.canExit_iff hinit hpaused hr hp ha
  refine ⟨hiff, fun hu => hiff.trans ?_⟩
  exact (hrun.custodial h₀ hu).cancelable_iff hr hp (hrun.allRefundable h₀ hu k r hr hp)

open Scenario in
/-- **Non-vacuity.** A deposit without a queue can be taken back. -/
theorem owner_gets_out_of_deposit :
    ∃ t₀ tr t r, ManagedState.Created t₀ ∧ ManagedRun noCalls t₀ tr t ∧
      t.core.requests.lookup (address 100) = some r ∧ r.requestState = .pending ∧
      t.core.CanExit (address 100) r userAsset := by
  obtain ⟨t₀, tr, t, h₀, hrun, hacts, hp⟩ := exists_managed_run
    ([start, deposit 100 senior 10].map .core)
    (fun _ t => t.core.vault.initialized && !t.core.vault.paused &&
      (t.core.requests.lookup (address 100)).any fun r =>
        r.requestState = .pending && r.requestType = .deposit && r.owner = user &&
        r.assetMintAddress = asset &&
        ((t.core.token.mints asset).all fun y => y.transferFee r.amount = 0) &&
        ((t.core.token.accounts userAsset).any fun x => x.mint = asset && x.owner = user) &&
        decide (t.core.token.Transferable asset) && decide (t.core.token.Receptive userAsset) &&
        (t.core.terms.pendingVaultOf asset = some pendingVault) &&
        decide (t.core.token.Thawed pendingVault))
    (by decide +kernel)
  -- what the evaluation of the script checked
  simp only [Bool.and_eq_true, Bool.not_eq_true', Option.any_eq_true, decide_eq_true_eq] at hp
  obtain ⟨⟨hinit, hpaused⟩, r, hr, ⟨⟨⟨⟨⟨⟨⟨⟨⟨hstate, htype⟩, howner⟩, hasset⟩, hfee⟩, x, hx, hmint,
    hholder⟩, htransferable⟩, hreceptive⟩, hescrow⟩, hthawed⟩⟩ := hp
  have ha : t.core.token.Holds userAsset r.takenMint r.owner := by
    rw [show r.takenMint = r.assetMintAddress by simp [Request.takenMint, htype], hasset, howner]
    exact ⟨x, hx, hmint, hholder⟩
  -- the script is made of core instructions
  have hu : ∀ y ∈ tr, y.act.Unmanaged := by
    intro y hy
    have hmem : y.act ∈ tr.map Transition.act := List.mem_map_of_mem hy
    rw [hacts] at hmem
    obtain ⟨b, -, hb⟩ := List.mem_map.1 hmem
    rw [← hb]
    trivial
  refine ⟨t₀, tr, t, r, h₀, hrun, hr, hstate, ?_⟩
  have hdeposit : r.requestType ≠ .redeem := by
    rw [htype]
    decide
  refine ((owner_gets_out h₀ hrun hinit hpaused hr hstate ha).2 hu).2
    ⟨fun _ y hy => ?_, fun _ => by rwa [hasset], fun _ v hv => ?_, fun _ => hreceptive,
      fun ht => absurd ht hdeposit, fun ht => absurd ht hdeposit, fun ht => absurd ht hdeposit,
      fun ht => absurd ht hdeposit⟩
  · rw [hasset] at hy
    rw [hy] at hfee
    simpa using hfee
  · rw [hasset] at hv
    obtain rfl := Option.some.inj (hescrow.symm.trans hv)
    exact hthawed

namespace Scenario

/-! ### A second asset -/

def secondAsset := address 13

/-- Keep redemptions in a queue, and register a second asset. -/
def queueAndSecondAsset : List Action :=
  [.config (.initializeRedemptionQueue curator),
    .world (.initializeMint secondAsset (mint 0 0)),
    .config (.addVaultAsset
      { authority := curator
        assetMint := secondAsset
        reserve := address 25
        pendingVault := address 26
        assetTokenProgram := .token } 0)]

/-- The user redeems shares for the second asset. -/
def redeemForSecond (k : ℕ) (amount : ℕ) : Action :=
  .request (.createRedeemRequest
    { user := user
      assetMint := secondAsset
      shareMint := senior
      vaultAsset := some secondAsset
      request := address k
      userShareAccount := userSenior
      shareTokenProgram := .token }
    ⟨amount, none⟩) trancheAccounts

end Scenario

open Scenario in
/-- **A queued redemption of a second asset cannot be taken back**: `cancel_request` refers it to
the queue's instruction, and that one accepts the primary asset only. -/
theorem queued_redemption_for_second_asset_is_stuck :
    ∃ t r, ManagedState.IsReachable noCalls t ∧ t.core.vault.initialized = true ∧
      t.core.vault.paused = false ∧ t.core.requests.lookup (address 101) = some r ∧
      r.requestState = .pending ∧ (t.core.vaultAssets r.assetMintAddress).isSome ∧
      t.core.token.Holds userSenior r.takenMint r.owner ∧
      ∀ a, ¬t.core.CanExit (address 101) r a := by
  obtain ⟨t₀, tr, t, h₀, hrun, -, hp⟩ := exists_managed_run
    ((queueAndSecondAsset ++ [anyNav, start, post 10, deposit 100 senior 100,
      approve 100 senior .deposit 100 1, collect 100 senior, redeemForSecond 101 5]).map .core)
    (fun _ t => t.core.vault.initialized && !t.core.vault.paused &&
      (t.core.requests.lookup (address 101)).any fun r =>
        r.requestState = .pending && r.requestType = .redeem && r.owner = user &&
        r.shareMintAddress = senior && (t.core.vaultAssets r.assetMintAddress).isSome &&
        r.redemptionQueueId.isSome && r.assetMintAddress ≠ t.core.vault.assetMint &&
        ((t.core.token.accounts userSenior).any fun x => x.mint = senior && x.owner = user))
    (by decide +kernel)
  simp only [Bool.and_eq_true, Bool.not_eq_true', Option.any_eq_true, decide_eq_true_eq] at hp
  obtain ⟨⟨hinit, hpaused⟩, r, hr, ⟨⟨⟨⟨⟨⟨⟨hstate, htype⟩, howner⟩, hshare⟩, hregistered⟩, hqueued⟩,
    hasset⟩, x, hx, hmint, hholder⟩⟩ := hp
  refine ⟨t, r, ⟨t₀, tr, h₀, hrun⟩, hinit, hpaused, hr, hstate, hregistered, ?_, fun a h => ?_⟩
  · rw [show r.takenMint = r.shareMintAddress by simp [Request.takenMint, htype], hshare, howner]
    exact ⟨x, hx, hmint, hholder⟩
  · exact hasset (servesQueued_of_canExit hr h htype hqueued)

end AsyncVault
