/-
AsyncVault/Tallies.lean

The counters of pending requests, whatever the tokens do.

The refinement of the order book is about states in which the vault controls its
tokens.  A managed call may do anything to them, so what is said here of every
state of the whole program speaks of no tokens at all (`Tallied`): the terms fit
each other, every request account is in order, and the two counters of pending
requests are the sums they stand for.

A request instruction counts one request in, counts one out, or does neither
(`Tally`); besides, it leaves the terms and the shape of the ledger (`Framed`).
-/
import AsyncVault.ManagedSteps

namespace AsyncVault

open Checked TokenLedger KeyedStore OrderBook Function Machine

variable {s s' s'' : VaultState} {k m : Pubkey} {r : Request}
variable {context : RequestShareMintContext} {remaining : List AccountInfo}

/-! ### Frames -/

/-- The terms stand, and every token account and mint is what it was. -/
structure Framed (s s' : VaultState) : Prop where
  terms : s'.terms = s.terms
  shape : SameShape s.token s'.token

theorem Framed.refl (s : VaultState) : Framed s s := ⟨rfl, .refl _⟩

theorem Framed.trans (h : Framed s s') (h' : Framed s' s'') : Framed s s'' :=
  ⟨h'.terms.trans h.terms, h.shape.trans h'.shape⟩

theorem Adjusted.framed {b : Book Pubkey} (h : Adjusted s s' b) : Framed s s' :=
  ⟨h.terms, by rw [h.token]; exact .refl _⟩

/-- Moving tokens and writing requests. -/
theorem Framed.put (h : Framed s s') {l : Ledger Pubkey} (ht : SameShape s'.token l)
    (requests : Store Pubkey Request) : Framed s (s'.put l requests) :=
  ⟨h.terms, h.shape.trans ht⟩

/-! ### Counting -/

/-- One for a pending request. -/
def Request.counts (r : Request) : ℕ := if r.requestState = .pending then 1 else 0

/-- What a request reserves of the asset `m`. -/
def Request.reserves (r : Request) (m : Pubkey) : ℕ :=
  if r.requestType = .deposit ∧ r.requestState = .pending ∧ r.assetMintAddress = m then r.amount
  else 0

namespace Request

theorem counts_pending (h : r.requestState = .pending) : r.counts = 1 := if_pos h

theorem counts_other (h : r.requestState ≠ .pending) : r.counts = 0 := if_neg h

theorem reserves_other (h : r.requestState ≠ .pending) (m : Pubkey) : r.reserves m = 0 :=
  if_neg fun h' => h h'.2.1

theorem reserves_redeem (h : r.requestType = .redeem) (m : Pubkey) : r.reserves m = 0 :=
  if_neg fun h' => by rw [h] at h'; cases h'.1

theorem reserves_deposit (ht : r.requestType = .deposit) (hp : r.requestState = .pending)
    (m : Pubkey) : r.reserves m = if r.assetMintAddress = m then r.amount else 0 := by
  simp [reserves, ht, hp]

end Request

/-- The counters after counting `r` in. -/
structure CountedIn (s s' : VaultState) (r : Request) : Prop where
  openCount : s'.vault.pendingAsyncRequests = s.vault.pendingAsyncRequests + 1
  reserved : ∀ m, s'.reserved m = s.reserved m + r.reserves m

/-- The counters after counting `r` out. -/
structure CountedOut (s s' : VaultState) (r : Request) : Prop where
  openCount : s'.vault.pendingAsyncRequests + 1 = s.vault.pendingAsyncRequests
  reserved : ∀ m, s'.reserved m + r.reserves m = s.reserved m

/-- The counters did not move. -/
structure Uncounted (s s' : VaultState) : Prop where
  openCount : s'.vault.pendingAsyncRequests = s.vault.pendingAsyncRequests
  reserved : ∀ m, s'.reserved m = s.reserved m

theorem Requeued.uncounted (h : Requeued s s') : Uncounted s s' :=
  ⟨congrArg Book.openCount h.book, congrFun (congrArg Book.reserved h.book)⟩

theorem CountedIn.of_deposit (ht : r.requestType = .deposit) (hp : r.requestState = .pending)
    (hcount : s'.vault.pendingAsyncRequests = s.vault.pendingAsyncRequests + 1)
    (hreserved : s'.reserved = update s.reserved r.assetMintAddress
      (s.reserved r.assetMintAddress + r.amount)) : CountedIn s s' r := by
  refine ⟨hcount, fun m => ?_⟩
  rw [hreserved, Request.reserves_deposit ht hp, update_apply]
  by_cases hm : r.assetMintAddress = m
  · subst hm
    simp
  · simp [hm, Ne.symm hm]

theorem CountedOut.of_deposit (ht : r.requestType = .deposit) (hp : r.requestState = .pending)
    (hcount : s'.vault.pendingAsyncRequests + 1 = s.vault.pendingAsyncRequests)
    (hle : r.amount ≤ s.reserved r.assetMintAddress)
    (hreserved : s'.reserved = update s.reserved r.assetMintAddress
      (s.reserved r.assetMintAddress - r.amount)) : CountedOut s s' r := by
  refine ⟨hcount, fun m => ?_⟩
  rw [hreserved, Request.reserves_deposit ht hp, update_apply]
  by_cases hm : r.assetMintAddress = m
  · subst hm
    simpa using Nat.sub_add_cancel hle
  · simp [hm, Ne.symm hm]

theorem CountedOut.of_redeem (ht : r.requestType = .redeem)
    (hcount : s'.vault.pendingAsyncRequests + 1 = s.vault.pendingAsyncRequests)
    (hreserved : s'.reserved = s.reserved) : CountedOut s s' r :=
  ⟨hcount, fun m => by rw [Request.reserves_redeem ht, hreserved, Nat.add_zero]⟩

theorem decrementPendingRequests_counted (h : decrementPendingRequests s = .ok s') :
    s'.vault.pendingAsyncRequests + 1 = s.vault.pendingAsyncRequests ∧
      s'.reserved = s.reserved := by
  simp only [decrementPendingRequests, bind_eq_ok, sub_eq_ok, pure_eq_ok] at h
  obtain ⟨_, ⟨hle, rfl⟩, rfl⟩ := h
  exact ⟨Nat.sub_add_cancel hle, rfl⟩

/-- A reservation is released from what is reserved. -/
theorem subPendingDeposit_le {vaultAsset : Option Pubkey} {n : ℕ}
    (h : subPendingDeposit s m vaultAsset n = .ok s') (hn : s.Names m vaultAsset) :
    n ≤ s.reserved m := by
  unfold subPendingDeposit at h
  rcases hn with hm | ⟨hm, rfl⟩
  · rw [if_pos (show s.vault.isPrimaryAsset m = true by simp [Vault.isPrimaryAsset, hm])] at h
    simp only [bind_eq_ok, sub_eq_ok, pure_eq_ok] at h
    obtain ⟨_, ⟨hle, -⟩, -⟩ := h
    rwa [reserved_primary hm]
  · rw [if_neg (show ¬s.vault.isPrimaryAsset m = true by simp [Vault.isPrimaryAsset, hm])] at h
    simp only [bind_eq_ok, okOr_eq_ok, sub_eq_ok, pure_eq_ok] at h
    obtain ⟨m', hm', va, hva, _, ⟨hle, -⟩, -⟩ := h
    obtain rfl := Option.some.inj hm'
    rwa [reserved_secondary hm hva]

/-! ### Request instructions -/

/-- There is something to return for the request, and its mints can have it. -/
structure VaultState.Refundable (s : VaultState) (r : Request) : Prop where
  positive : 0 < r.amount
  assetMint : (s.token.mints r.assetMintAddress).isSome
  shareMint : r.requestType = .redeem →
    ∃ y, s.token.mints r.shareMintAddress = some y ∧ y.confidentialMintBurn = false

/-- **The effect of a request instruction on the tallies.** -/
inductive Tally (s s' : VaultState) : Prop
  | opened {k : Pubkey} {r : Request} (fresh : s.requests.lookup k = none)
      (ok : s.RequestOk r) (pending : r.requestState = .pending) (refundable : s.Refundable r)
      (initialized : s.vault.initialized = true)
      (requests : s'.requests = s.requests.insert k r) (counted : CountedIn s s' r)
  | closed {k : Pubkey} {r : Request} (found : s.requests.lookup k = some r)
      (pending : r.requestState = .pending)
      (requests : s'.requests = s.requests.erase k ∨
        ∃ r', s'.requests = s.requests.insert k r' ∧ r'.requestState ≠ .pending ∧ s.RequestOk r')
      (counted : CountedOut s s' r)
  | noted {k : Pubkey} {r : Request} (found : s.requests.lookup k = some r)
      (requests : r.requestState ≠ .pending ∧ s'.requests = s.requests.erase k ∨
        ∃ operator, s'.requests = s.requests.insert k { r with operator := operator })
      (counted : Uncounted s s')

theorem createDepositRequest_tally (hc : s.terms.Coherent) {ctx : CreateDepositRequest}
    {args : RequestArgs} (h : createDepositRequest s ctx args remaining = .ok s') :
    Framed s s' ∧ Tally s s' := by
  obtain ⟨context, token, s₁, s₂, s₃, id, hacc, ⟨htoken, h₁, h₂, h₃, rfl⟩⟩ :=
    createDepositRequest_iff.1 h
  obtain ⟨y, hy, -⟩ := hacc.assetMint
  obtain ⟨fee, -, hfee⟩ := hacc.fee
  obtain ⟨hshare, -⟩ := validateRequestShareMint_ok hc hacc.validated
  obtain ⟨-, hnames⟩ := checkPendingVault_ok hc hacc.pendingVault
  -- the three counters of the handler, one after the other
  have hinc := incrementPendingRequests_ok h₁
  have hadd := addPendingDeposit_ok h₂ (hnames.of_terms hinc.terms)
  have hnext := nextRequestId_ok h₃
  have hadj := (hinc.trans hadd).trans hnext.adjusted
  have hrequests : s₃.requests = s.requests := hadj.requests
  set r := ctx.opened s args context id with hr
  have hcount : s₃.book.openCount = s.book.openCount + 1 := by
    rw [hnext.book, hadd.book, hinc.book]
  have hreserved : s₃.book.reserved = update s.book.reserved ctx.assetMint
      (s.book.reserved ctx.assetMint + args.amount) := by
    rw [hnext.book, hadd.book, hinc.book]
  refine ⟨hadj.framed.put (l := token) ?_ (s₃.requests.insert ctx.request r),
    .opened hacc.fresh (r := r) ⟨rfl, hacc.signer, hshare⟩ rfl
      ⟨Nat.zero_lt_of_lt hfee, by rw [show s.token.mints r.assetMintAddress = some y from hy]; rfl,
        by rintro ⟨⟩⟩ hacc.running.1 (by rw [← hrequests]; rfl) ?_⟩
  · rw [show s₃.token = s.token from hadj.token]
    exact (transferChecked_ok htoken).shape
  · exact .of_deposit rfl rfl hcount hreserved

theorem createRedeemRequest_tally (hc : s.terms.Coherent) {ctx : CreateRedeemRequest}
    {args : RequestArgs} (h : createRedeemRequest s ctx args remaining = .ok s') :
    Framed s s' ∧ Tally s s' := by
  obtain ⟨context, token, s₁, s₂, id, hacc, ⟨htoken, h₁, h₂, rfl⟩⟩ := createRedeemRequest_iff.1 h
  obtain ⟨y, hy⟩ := hacc.assetMint
  obtain ⟨hshare, -⟩ := validateRequestShareMint_ok hc hacc.validated
  have hinc := incrementPendingRequests_ok h₁
  have hnext := nextRequestId_ok h₂
  have hadj := hinc.trans hnext.adjusted
  have hrequests : s₂.requests = s.requests := hadj.requests
  set r := ctx.opened s args context id with hr
  have hcount : s₂.book.openCount = s.book.openCount + 1 := by
    rw [hnext.book, hinc.book]
  -- a redemption reserves nothing: its shares are burnt at once
  have hreserved : s₂.book.reserved = s.book.reserved := by
    rw [hnext.book, hinc.book]
  refine ⟨hadj.framed.put (l := token) ?_ (s₂.requests.insert ctx.request r),
    .opened hacc.fresh (r := r) ⟨rfl, hacc.signer, hshare⟩ rfl
      ⟨hacc.positive, by rw [show s.token.mints r.assetMintAddress = some y from hy]; rfl,
        fun _ => (burn_ok htoken).mint⟩ hacc.running.1 (by rw [← hrequests]; rfl) ⟨hcount,
          fun m => ?_⟩⟩
  · rw [show s₂.token = s.token from hadj.token]
    exact (burn_ok htoken).shape
  · rw [Request.reserves_redeem rfl]
    exact congrFun hreserved m

/-- A refund counts the request out. -/
theorem refund_tally (hc : s.terms.Coherent) {ctx : RefundAccounts}
    (hp : r.requestState = .pending) (hm : r.assetMintAddress = ctx.assetMint)
    (h : refund s ctx r = .ok s') :
    Framed s s' ∧ s'.requests = s.requests ∧ CountedOut s s' r := by
  cases ht : r.requestType with
  | deposit =>
    obtain ⟨src, dst, program, token, s₁, h⟩ := (refund_deposit_iff ht).1 h
    have hcheck := h.named
    have h₁ := h.released
    rw [← hm] at hcheck h₁
    obtain ⟨-, hnames⟩ := checkPendingVault_ok hc hcheck
    have hsub := subPendingDeposit_ok h₁ hnames
    have hdec := decrementPendingRequests_ok h.counted
    obtain ⟨hcount, hreserved⟩ := decrementPendingRequests_counted h.counted
    have hopen : s₁.vault.pendingAsyncRequests = s.vault.pendingAsyncRequests :=
      congrArg Book.openCount hsub.book
    have hsubbed : s₁.reserved = _ := congrArg Book.reserved hsub.book
    refine ⟨(hsub.framed.put ?_ s₁.requests).trans hdec.framed, hdec.requests.trans hsub.requests,
      .of_deposit ht hp (hcount.trans hopen) (subPendingDeposit_le h₁ hnames)
        (hreserved.trans hsubbed)⟩
    rw [hsub.token]
    exact (transferChecked_ok h.paid).shape
  -- a redemption had nothing reserved, so only the count goes down
  | redeem =>
    obtain ⟨dst, program, token, h⟩ := (refund_redeem_iff ht).1 h
    have hdec := decrementPendingRequests_ok h.counted
    obtain ⟨hcount, hreserved⟩ := decrementPendingRequests_counted h.counted
    exact ⟨((Framed.refl s).put (mintTo_ok h.minted).shape s.requests).trans hdec.framed,
      hdec.requests, .of_redeem ht hcount hreserved⟩

theorem rejectRequest_tally (hc : s.terms.Coherent) {authority user : Pubkey}
    {ctx : RefundAccounts} {args : ApproveRequestArgs}
    (h : rejectRequest s authority user ctx args remaining = .ok s') :
    Framed s s' ∧ Tally s s' := by
  obtain ⟨r, context, s₁, s₂, hreject⟩ := rejectRequest_iff.1 h
  obtain rfl := hreject.state
  obtain ⟨hasset, -⟩ := checkRequestMints_ok hreject.mints
  have hqueue := advanceQueue_ok hreject.queue
  obtain ⟨hframed, hrequests, hout⟩ :=
    refund_tally (by rwa [hqueue.terms]) hreject.pending hasset hreject.refunded
  have hrequests' : s₂.requests = s.requests := hrequests.trans hqueue.adjusted.requests
  refine ⟨(hqueue.adjusted.framed.trans hframed).put (.refl _) (s₂.requests.erase ctx.request),
    .closed hreject.found hreject.pending (.inl (by rw [← hrequests']; rfl)) ⟨?_, fun m => ?_⟩⟩
  · exact hout.openCount.trans hqueue.uncounted.openCount
  · exact (hout.reserved m).trans (hqueue.uncounted.reserved m)

theorem cancelRequest_tally (hc : s.terms.Coherent) {user : Pubkey} {ctx : RefundAccounts}
    (h : cancelRequest s user ctx remaining = .ok s') : Framed s s' ∧ Tally s s' := by
  obtain ⟨r, context, s₁, hcancel⟩ := cancelRequest_iff.1 h
  obtain rfl := hcancel.state
  obtain ⟨hframed, hrequests, hout⟩ :=
    refund_tally hc hcancel.pending (checkRequestMints_ok hcancel.mints).1 hcancel.refunded
  exact ⟨hframed.put (.refl _) (s₁.requests.erase ctx.request),
    .closed hcancel.found hcancel.pending (.inl (by rw [← hrequests]; rfl))
      ⟨hout.openCount, hout.reserved⟩⟩

/-- A refund that keeps the request account as canceled. -/
theorem parked_tally (hc : s.terms.Coherent) {ctx : RefundAccounts} {s₁ : VaultState}
    (hr : s.requests.lookup k = some r) (hp : r.requestState = .pending)
    (hm : r.assetMintAddress = ctx.assetMint) (hok : s.RequestOk r)
    (h : refund s ctx r = .ok s₁) :
    Framed s (s₁.put s₁.token (s₁.requests.insert k { r with requestState := .canceled })) ∧
      Tally s (s₁.put s₁.token (s₁.requests.insert k { r with requestState := .canceled })) := by
  obtain ⟨hframed, hrequests, hout⟩ := refund_tally hc hp hm h
  refine ⟨hframed.put (.refl _) _, .closed hr hp
    (.inr ⟨{ r with requestState := .canceled }, ?_, by simp, ?_⟩)
    ⟨hout.openCount, hout.reserved⟩⟩
  · rw [← hrequests]
    rfl
  · exact ⟨hok.vault, hok.owner, hok.shareMint⟩

theorem cancelQueuedDepositRequest_tally (ht : s.terms.Coherent)
    (hok : ∀ k r, s.requests.lookup k = some r → s.RequestOk r)
    {ctx : CancelQueuedDepositRequest} (h : cancelQueuedDepositRequest s ctx remaining = .ok s') :
    Framed s s' ∧ Tally s s' := by
  obtain ⟨r, context, s₁, hpark⟩ := cancelQueuedDepositRequest_iff.1 h
  obtain rfl := hpark.state
  exact parked_tally ht hpark.found hpark.pending (checkRequestMints_ok hpark.mints).1
    (hok _ _ hpark.found) hpark.refunded

theorem cancelQueuedRedemptionRequest_tally (ht : s.terms.Coherent)
    (hok : ∀ k r, s.requests.lookup k = some r → s.RequestOk r)
    {ctx : CancelQueuedRedemptionRequest}
    (h : cancelQueuedRedemptionRequest s ctx remaining = .ok s') : Framed s s' ∧ Tally s s' := by
  obtain ⟨-, r, context, s₁, hpark⟩ := cancelQueuedRedemptionRequest_iff.1 h
  obtain rfl := hpark.state
  exact parked_tally ht hpark.found hpark.pending (checkRequestMints_ok hpark.mints).1
    (hok _ _ hpark.found) hpark.refunded

theorem skipCanceledQueueRequest_tally {owner : Pubkey}
    (h : skipCanceledQueueRequest s k owner remaining = .ok s') : Framed s s' ∧ Tally s s' := by
  obtain ⟨r, context, s₁, hskip⟩ := skipCanceledQueueRequest_iff.1 h
  obtain rfl := hskip.state
  have hqueue := advanceQueue_ok hskip.queue
  refine ⟨hqueue.adjusted.framed.put (.refl _) (s₁.requests.erase k),
    .noted hskip.found (.inl ⟨by simp [hskip.canceled], ?_⟩)
      ⟨hqueue.uncounted.openCount, hqueue.uncounted.reserved⟩⟩
  rw [← hqueue.adjusted.requests]
  rfl

theorem claim_tally {ctx : Claim} (h : claim s ctx remaining = .ok s') :
    Framed s s' ∧ Tally s s' := by
  obtain ⟨r, p, token, hc, hpay, rfl⟩ := claim_iff.1 h
  refine ⟨(Framed.refl s).put (shape_of_pay hpay) _, ?_⟩
  exact .noted hc.found (.inl ⟨by simp [hc.claimable], rfl⟩) ⟨rfl, fun _ => rfl⟩

theorem setOperator_tally {user operator : Pubkey} (h : setOperator s user operator k = .ok s') :
    Framed s s' ∧ Tally s s' := by
  obtain ⟨-, -, r, hr, -, rfl⟩ := setOperator_iff.1 h
  exact ⟨⟨rfl, .refl _⟩, .noted hr (.inr ⟨some operator, rfl⟩) ⟨rfl, fun _ => rfl⟩⟩

/-! ### The approval -/

/-- Predicting the supply of a tranche changes only its cache. -/
theorem updateTrancheSupplyCache_terms {t : RequestType} {delta live : ℕ}
    {info : Option TrancheRequestInfo} {account : Option AccountInfo}
    (h : updateTrancheSupplyCache s m t delta live info account = .ok s') :
    ∃ tc, s' = { s with trancheConfig := tc } ∧
      tc.map TrancheConfig.terms = s.trancheConfig.map TrancheConfig.terms := by
  unfold updateTrancheSupplyCache at h
  split at h
  · obtain rfl := pure_eq_ok.1 h
    exact ⟨_, rfl, rfl⟩
  · simp only [bind_eq_ok] at h
    obtain ⟨tc, htc, h⟩ := h
    rw [writableTrancheConfig_ok htc]
    split at h
    · simp only [bind_eq_ok, pure_eq_ok] at h
      obtain ⟨n, -, rfl⟩ := h
      exact ⟨_, rfl, rfl⟩
    · split at h
      · simp only [bind_eq_ok, pure_eq_ok] at h
        obtain ⟨n, -, rfl⟩ := h
        exact ⟨_, rfl, rfl⟩
      · obtain rfl := pure_eq_ok.1 h
        exact ⟨_, rfl, rfl⟩

/-- The terms see the tranche configuration through its terms only. -/
theorem terms_congr {tc : Option TrancheConfig}
    (h : tc.map TrancheConfig.terms = s.trancheConfig.map TrancheConfig.terms) :
    ({ s with trancheConfig := tc } : VaultState).terms = s.terms := by
  simp only [VaultState.terms, h]

/-- A settlement moves tokens, before the request is recorded as settled. -/
structure Settles (s s' : VaultState) : Prop extends Framed s s', Uncounted s s' where
  requests : s'.requests = s.requests
  balances : s'.vault.pendingDepositAmount = s.vault.pendingDepositAmount ∧
    s'.vaultAssets = s.vaultAssets

theorem settleDeposit_settles {ctx : ApproveRequest} {nav : ℕ} {share : Mint Pubkey}
    {x : Settlement} (h : settleDeposit s ctx context r nav share remaining = .ok x) :
    Settles s x.state := by
  obtain ⟨_, _, _, _, _, _, _, hs, rfl⟩ := settleDeposit_iff.1 h
  obtain ⟨tc, rfl, hterms⟩ := updateTrancheSupplyCache_terms hs.cached
  exact ⟨⟨terms_congr hterms,
    (paySettlementFee_ok hs.feePaid).shape.trans (transferChecked_ok hs.paid).shape⟩,
    ⟨rfl, fun _ => rfl⟩, rfl, rfl, rfl⟩

theorem settleRedeem_settles {ctx : ApproveRequest} {nav : ℕ} {share : Mint Pubkey}
    {x : Settlement} (h : settleRedeem s ctx context r nav share remaining = .ok x) :
    Settles s x.state := by
  obtain ⟨_, _, _, _, _, v, _, _, hs, rfl⟩ := settleRedeem_iff.1 h
  obtain ⟨tc, rfl, hterms⟩ := updateTrancheSupplyCache_terms hs.cached
  obtain ⟨start, used, rfl⟩ := Vault.consumeRedemptionRollingLimit_ok hs.charged
  exact ⟨⟨terms_congr hterms,
    (paySettlementFee_ok hs.feePaid).shape.trans (transferChecked_ok hs.paid).shape⟩,
    ⟨rfl, fun _ => rfl⟩, rfl, rfl, rfl⟩

theorem Requeued.settles (h : Requeued s s') : Settles s s' :=
  ⟨h.adjusted.framed, h.uncounted, h.adjusted.requests, by
    obtain ⟨ext, tc, rfl, -⟩ := h
    exact ⟨rfl, rfl⟩⟩

theorem Settles.trans (h : Settles s s') (h' : Settles s' s'') : Settles s s'' :=
  ⟨h.toFramed.trans h'.toFramed,
    ⟨h'.openCount.trans h.openCount, fun m => (h'.reserved m).trans (h.reserved m)⟩,
    h'.requests.trans h.requests, h'.balances.1.trans h.balances.1,
    h'.balances.2.trans h.balances.2⟩

/-- Recording a settled request counts it out. -/
theorem settled_tally {s₁ : VaultState} {total pending : ℕ} {request : Request}
    (hsettles : Settles s s₁) (hr : s.requests.lookup k = some r)
    (hp : r.requestState = .pending) (hprimary : r.assetMintAddress = s.vault.assetMint)
    (hstate : request.requestState ≠ .pending) (hok : s.RequestOk request)
    (hpending : pending + r.reserves s.vault.assetMint = s.vault.pendingDepositAmount)
    (h : decrementPendingRequests ((s₁.withVault { s₁.vault with
        totalAssetBalance := total
        pendingDepositAmount := pending }).put s₁.token (s₁.requests.insert k request)) = .ok s') :
    Framed s s' ∧ Tally s s' := by
  obtain ⟨hcount, hreserved⟩ := decrementPendingRequests_counted h
  have hdec := decrementPendingRequests_ok h
  have hasset : s₁.vault.assetMint = s.vault.assetMint := congrArg Terms.assetMint hsettles.terms
  have hrequests : s'.requests = s.requests.insert k request := by
    rw [hdec.requests, ← hsettles.requests]
    rfl
  refine ⟨⟨hdec.terms.trans hsettles.terms, ?_⟩,
    .closed hr hp (.inr ⟨request, hrequests, hstate, hok⟩)
      ⟨hcount.trans hsettles.openCount, fun m => ?_⟩⟩
  · rw [hdec.token]
    exact hsettles.shape
  · rw [hreserved]
    simp only [VaultState.reserved, VaultState.put, VaultState.withVault, hasset,
      hsettles.balances.2]
    -- only the primary asset was reserved by a settled request
    by_cases hm : s.vault.assetMint = m
    · subst hm
      simpa using hpending
    · have hzero : r.reserves m = 0 := if_neg fun h' => hm (hprimary.symm.trans h'.2.2)
      simp [hm, hzero]

theorem approveRequest_tally (hok : ∀ k r, s.requests.lookup k = some r → s.RequestOk r)
    {ctx : ApproveRequest} {args : ApproveRequestArgs}
    (h : approveRequest s ctx args remaining = .ok s') : Framed s s' ∧ Tally s s' := by
  obtain ⟨r, share, context, s₁, x, v, hacc, hsettled⟩ := approveRequest_iff.1 h
  obtain ⟨hr, hp, ha, -, -⟩ := hacc.docket
  have ha : r.assetMintAddress = s.vault.assetMint := ha
  have hqueue := (advanceQueue_ok hsettled.queue).settles
  have hdec := hsettled.state
  have hok' : ∀ (amount price : ℕ), s.RequestOk
      { r with amount := amount, price := price, requestState := .claimable } := fun _ _ =>
    let h := hok _ _ hr
    ⟨h.vault, h.owner, h.shareMint⟩
  cases ht : r.requestType with
  | deposit =>
    obtain ⟨hsettle, hv⟩ := hsettled.deposit ht
    have hsettles := hqueue.trans (settleDeposit_settles hsettle)
    -- a deposit gives up what it had reserved
    obtain ⟨hle, rfl⟩ := creditDeposit_vault hv
    refine settled_tally hsettles hr hp ha (by simp) (hok' _ _) ?_ hdec
    rw [Request.reserves_deposit ht hp, if_pos ha, Nat.sub_add_cancel hle]
    exact hsettles.balances.1
  | redeem =>
    obtain ⟨hsettle, hv⟩ := hsettled.redeem ht
    have hsettles := hqueue.trans (settleRedeem_settles hsettle)
    -- a redemption had reserved nothing
    obtain rfl := debitRedeem_vault hv
    refine settled_tally hsettles hr hp ha (by simp) (hok' _ _) ?_ hdec
    rw [Request.reserves_redeem ht, Nat.add_zero]
    exact hsettles.balances.1

/-- **Every request instruction keeps the tallies.** -/
theorem execRequest_tally (hc : s.terms.Coherent)
    (hok : ∀ k r, s.requests.lookup k = some r → s.RequestOk r) {i : RequestInstruction}
    (h : execRequest s i remaining = .ok s') : Framed s s' ∧ Tally s s' := by
  cases i with
  | createDepositRequest ctx args => exact createDepositRequest_tally hc h
  | createRedeemRequest ctx args => exact createRedeemRequest_tally hc h
  | approveRequest ctx args => exact approveRequest_tally hok h
  | rejectRequest authority user ctx args => exact rejectRequest_tally hc h
  | cancelRequest user ctx => exact cancelRequest_tally hc h
  | cancelQueuedDepositRequest ctx => exact cancelQueuedDepositRequest_tally hc hok h
  | cancelQueuedRedemptionRequest ctx => exact cancelQueuedRedemptionRequest_tally hc hok h
  | skipCanceledQueueRequest k owner => exact skipCanceledQueueRequest_tally h
  | claim ctx => exact claim_tally h
  | setOperator user operator k => exact setOperator_tally h

/-! ### Everything else -/

/-- No request was opened or closed. -/
structure Kept (s s' : VaultState) : Prop extends Uncounted s s' where
  terms : s'.terms = s.terms
  requests : s'.requests = s.requests

theorem Kept.refl (s : VaultState) : Kept s s := ⟨⟨rfl, fun _ => rfl⟩, rfl, rfl⟩

theorem Kept.withToken (h : Kept s s') (token : Ledger Pubkey) :
    Kept s (s'.put token s'.requests) :=
  ⟨⟨h.openCount, h.reserved⟩, h.terms, h.requests⟩

theorem Settles.kept (h : Settles s s') : Kept s s' :=
  ⟨h.toUncounted, h.terms, h.requests⟩

theorem instantDeposit_settles {ctx : InstantDeposit} {amount : ℕ}
    (h : instantDeposit s ctx amount remaining = .ok s') : Settles s s' := by
  obtain ⟨_, _, _, _, _, _, _, token₁, token₂, token, hi⟩ := instantDeposit_iff.1 h
  have hpaid : SameShape s.token token₂ :=
    (payInstantFee_ok hi.feePaid).shape.trans (transferChecked_ok hi.paid).shape
  obtain rfl := hi.state
  exact ⟨⟨rfl, hpaid.trans (mintTo_ok hi.minted).shape⟩, ⟨rfl, fun _ => rfl⟩, rfl, rfl, rfl⟩

theorem instantRedeem_settles {ctx : InstantRedeem} {shares : ℕ}
    (h : instantRedeem s ctx shares remaining = .ok s') : Settles s s' := by
  obtain ⟨_, _, _, _, _, _, _, v, token₁, token₂, token, hi⟩ := instantRedeem_iff.1 h
  have hburned : SameShape s.token token₂ :=
    (burn_ok hi.burned).shape.trans (payInstantFee_ok hi.feePaid).shape
  obtain rfl := hi.state
  obtain ⟨start, used, rfl⟩ := Vault.consumeRedemptionRollingLimit_ok hi.limit
  exact ⟨⟨rfl, hburned.trans (transferChecked_ok hi.paid).shape⟩, ⟨rfl, fun _ => rfl⟩, rfl, rfl,
    rfl⟩

theorem updateVaultNav_settles {authority : Pubkey} {u : ℕ}
    (h : updateVaultNav s authority u remaining = .ok s') : Settles s s' := by
  obtain ⟨version, mark, crystallized, tc, token, rfl, -, -, hterms, feeShares, hissued⟩ :=
    updateVaultNav_posted h
  exact ⟨⟨terms_congr hterms, hissued.shape⟩, ⟨rfl, fun _ => rfl⟩, rfl, rfl, rfl⟩

variable {t t' : ManagedState} {verify : MerkleCheck} {core : VaultState}

/-- Charging a movement to the limits touches no pending deposit. -/
theorem accountMovement_kept (hc : t.core.terms.Coherent) {ctx : VenuePosition} {p : Position}
    {amount : ℕ} {unavailable : AsyncVaultError} {available : VaultAsset → ℕ}
    {move : PositionLedger → Result PositionLedger} {ledger : Option PositionLedger}
    (h : accountMovement t ctx p amount unavailable available move = .ok (core, ledger)) :
    Kept t.core core ∧ core.token = t.core.token := by
  obtain ⟨start, used, h, -⟩ | ⟨m, va, start, used, l, h, -⟩ := accountMovement_iff.1 h
  · obtain rfl := h.state
    exact ⟨⟨⟨rfl, fun _ => rfl⟩, rfl, rfl⟩, rfl⟩
  · obtain ⟨hm, hfound⟩ := secondaryAsset_ok hc h.asset
    obtain rfl := h.state
    obtain rfl := Option.some.inj hm
    refine ⟨⟨⟨rfl, fun m => ?_⟩, ?_, rfl⟩, rfl⟩
    · simp only [VaultState.reserved, update_apply]
      by_cases hm : m = ctx.assetMint
      · simp [hm, hfound]
      · simp [hm]
    · simp only [VaultState.terms, Terms.mk.injEq, true_and, update_apply]
      funext m
      by_cases hm : m = ctx.assetMint
      · simp [hm, hfound, VaultAsset.terms]
      · simp [hm]

/-- A venue instruction opens and closes no request. -/
theorem execVenue_kept (hc : t.core.terms.Coherent) {i : VenueInstruction}
    (h : execVenue t i = .ok t') : Kept t.core t'.core := by
  -- none of them reads a request; a movement writes balances, a withdrawal its window
  cases i with
  | registerVenue registryAuthority args =>
    obtain ⟨-, -, -, rfl⟩ := registerVenue_iff.1 h
    exact .refl _
  | setVenueEntryPaused registryAuthority entry paused =>
    obtain ⟨-, e, -, -, rfl⟩ := setVenueEntryPaused_iff.1 h
    exact .refl _
  | approveVaultVenue authority entry recipientAuthority =>
    obtain ⟨e, h⟩ := approveVaultVenue_iff.1 h
    obtain rfl := h.state
    exact .refl _
  | removeVaultVenue authority entry =>
    obtain ⟨v, h⟩ := removeVaultVenue_iff.1 h
    obtain rfl := h.state
    exact .refl _
  | createVenuePosition ctx =>
    obtain ⟨e, v, token, h⟩ := createVenuePosition_iff.1 h
    obtain rfl := h.state
    exact (Kept.refl t.core).withToken token
  | deployVenuePosition ctx amount =>
    obtain ⟨p, core, ledger, token, n, h⟩ := deployVenuePosition_iff.1 h
    obtain rfl := h.state
    exact (accountMovement_kept hc h.charged).1.withToken token
  | pullVenuePosition ctx amount =>
    obtain ⟨p, core, ledger, token, n, h⟩ := pullVenuePosition_iff.1 h
    obtain rfl := h.state
    exact (accountMovement_kept hc h.charged).1.withToken token
  | removeVenuePosition ctx =>
    obtain ⟨p, asset, v, token, h⟩ := removeVenuePosition_iff.1 h
    obtain rfl := h.state
    exact (Kept.refl t.core).withToken token
  | withdrawAssets ctx amount =>
    obtain ⟨asset, e, v, w, token, h⟩ := withdrawAssets_iff.1 h
    obtain rfl := h.state
    obtain ⟨start, used, rfl⟩ := Vault.consumeExternalWithdrawRollingLimit_ok h.charged
    exact ⟨⟨rfl, fun _ => rfl⟩, rfl, rfl⟩

/-- A managed call opens and closes no request either. -/
theorem manageVault_kept {ctx : ManageVault} {args : ManageVaultArgs}
    {accounts : List PolicyAccountMeta} {effect : Ledger Pubkey → Result (Ledger Pubkey)}
    (h : manageVaultWithMerkleVerification verify t ctx args accounts effect = .ok t') :
    Kept t.core t'.core := by
  obtain ⟨share, policy, v, token, hcheck, -, -, rfl⟩ := manageVault_ok h
  obtain ⟨-, -, -, -, limit, -, hv⟩ := checkManagedCall_ok hcheck
  cases limit with
  | none =>
    obtain rfl := hv
    exact (Kept.refl t.core).withToken token
  | some amount =>
    obtain ⟨start, used, rfl⟩ := Vault.consumeManagerRollingLimit_ok hv
    exact ⟨⟨rfl, fun _ => rfl⟩, rfl, rfl⟩

/-! ### The invariant -/

/-- **What every state owes its requests**: they are in order, there is none before the vault is
initialised, and the counters are the sums they stand for. -/
structure Tallied (s : VaultState) : Prop where
  coherent : s.terms.Coherent
  requests : ∀ k r, s.requests.lookup k = some r → s.RequestOk r
  positive : ∀ k r, s.requests.lookup k = some r → r.requestState = .pending → 0 < r.amount
  uninitialized : s.vault.initialized = false → s.requests = ∅
  openCount : s.vault.pendingAsyncRequests = total Request.counts s.requests
  reserved : ∀ m, s.reserved m = total (Request.reserves · m) s.requests

namespace Tallied

theorem of_kept (h : Tallied s) (hk : Kept s s') : Tallied s' where
  coherent := by
    rw [hk.terms]
    exact h.coherent
  requests k r hr := by
    rw [hk.requests] at hr
    exact (h.requests k r hr).of_terms hk.terms
  positive k r hr := by
    rw [hk.requests] at hr
    exact h.positive k r hr
  uninitialized hi := by
    rw [hk.requests]
    exact h.uninitialized ((congrArg Terms.initialized hk.terms).symm.trans hi)
  openCount := by rw [hk.openCount, hk.requests, h.openCount]
  reserved m := by rw [hk.reserved, hk.requests, h.reserved]

/-- Requests in order stay so when one is written. -/
theorem requests_insert (h : Tallied s) (ht : s'.terms = s.terms) (hr : s.RequestOk r)
    (he : s'.requests = s.requests.insert k r) :
    ∀ k' r', s'.requests.lookup k' = some r' → s'.RequestOk r' := by
  intro k' r' hk
  rw [he] at hk
  by_cases hkk : k' = k
  · subst hkk
    obtain rfl : r = r' := by simpa using hk
    exact hr.of_terms ht
  · rw [AList.lookup_insert_ne hkk] at hk
    exact (h.requests k' r' hk).of_terms ht

/-- And when one is closed. -/
theorem requests_erase (h : Tallied s) (ht : s'.terms = s.terms)
    (he : s'.requests = s.requests.erase k) :
    ∀ k' r', s'.requests.lookup k' = some r' → s'.RequestOk r' := by
  intro k' r' hk
  rw [he] at hk
  exact (h.requests k' r' (VaultState.lookup_of_erase hk)).of_terms ht

theorem positive_insert (h : Tallied s) (hr : r.requestState = .pending → 0 < r.amount)
    (he : s'.requests = s.requests.insert k r) :
    ∀ k' r', s'.requests.lookup k' = some r' → r'.requestState = .pending → 0 < r'.amount := by
  intro k' r' hk
  rw [he] at hk
  by_cases hkk : k' = k
  · subst hkk
    obtain rfl : r = r' := by simpa using hk
    exact hr
  · rw [AList.lookup_insert_ne hkk] at hk
    exact h.positive k' r' hk

theorem positive_erase (h : Tallied s) (he : s'.requests = s.requests.erase k) :
    ∀ k' r', s'.requests.lookup k' = some r' → r'.requestState = .pending → 0 < r'.amount := by
  intro k' r' hk
  rw [he] at hk
  exact h.positive k' r' (VaultState.lookup_of_erase hk)

/-- A vault with a request is initialised, and stays so. -/
theorem initialized_of (h : Tallied s) (ht : s'.terms = s.terms)
    (hr : s.requests.lookup k = some r) : s'.vault.initialized = false → s'.requests = ∅ := by
  intro hi
  have hi' : s.vault.initialized = false := (congrArg Terms.initialized ht).symm.trans hi
  exact absurd (h.uninitialized hi') (VaultState.requests_ne_empty hr)

/-- **A request instruction keeps the invariant.** -/
theorem of_tally (h : Tallied s) (hf : Framed s s') (ht : Tally s s') : Tallied s' := by
  have hterms := hf.terms
  have hcoherent : s'.terms.Coherent := by
    rw [hterms]
    exact h.coherent
  -- one case for each thing that can happen to the book of requests
  cases ht with
  | @opened k r fresh ok pending refundable initialized requests counted =>
    refine ⟨hcoherent, h.requests_insert hterms ok requests,
      h.positive_insert (fun _ => refundable.positive) requests, fun hi => ?_, ?_, fun m => ?_⟩
    · have hi' : s.vault.initialized = false := (congrArg Terms.initialized hterms).symm.trans hi
      rw [initialized] at hi'
      cases hi'
    · rw [counted.openCount, h.openCount, requests, total_insert_of_none fresh,
        Request.counts_pending pending]
    · rw [counted.reserved, h.reserved, requests, total_insert_of_none fresh]
  | @closed k r found pending requests counted =>
    have hcount := counted.openCount
    have hreserved := counted.reserved
    rw [h.openCount] at hcount
    simp only [h.reserved] at hreserved
    -- a request that left the pending ones is gone, or recorded as settled or canceled
    rcases requests with he | ⟨r', he, hstate, hok⟩
    · refine ⟨hcoherent, h.requests_erase hterms he, h.positive_erase he,
        h.initialized_of hterms found, ?_, fun m => ?_⟩
      · have htotal := total_erase_of_some (w := Request.counts) found
        rw [Request.counts_pending pending] at htotal
        rw [he]
        omega
      · have htotal := total_erase_of_some (w := (Request.reserves · m)) found
        have := hreserved m
        rw [he]
        omega
    · refine ⟨hcoherent, h.requests_insert hterms hok he,
        h.positive_insert (fun hp => absurd hp hstate) he, h.initialized_of hterms found, ?_,
        fun m => ?_⟩
      · have htotal := total_insert_of_some (w := Request.counts) (u := r') found
        rw [Request.counts_pending pending, Request.counts_other hstate] at htotal
        rw [he]
        omega
      · have htotal := total_insert_of_some (w := (Request.reserves · m)) (u := r') found
        rw [Request.reserves_other hstate] at htotal
        have := hreserved m
        rw [he]
        omega
  | @noted k r found requests counted =>
    have hok := h.requests k r found
    -- a settled request is closed, or an operator is set: neither was counted or changes its count
    rcases requests with ⟨hstate, he⟩ | ⟨operator, he⟩
    · refine ⟨hcoherent, h.requests_erase hterms he, h.positive_erase he,
        h.initialized_of hterms found, ?_, fun m => ?_⟩
      · have htotal := total_erase_of_some (w := Request.counts) found
        rw [Request.counts_other hstate] at htotal
        rw [counted.openCount, h.openCount, he]
        omega
      · have htotal := total_erase_of_some (w := (Request.reserves · m)) found
        rw [Request.reserves_other hstate] at htotal
        rw [counted.reserved, h.reserved, he]
        omega
    · have hok' : s.RequestOk { r with operator := operator } :=
        ⟨hok.vault, hok.owner, hok.shareMint⟩
      refine ⟨hcoherent, h.requests_insert hterms hok' he,
        h.positive_insert (r := { r with operator := operator }) (h.positive k r found) he,
        h.initialized_of hterms found, ?_, fun m => ?_⟩
      · have htotal := total_insert_of_some (w := Request.counts)
          (u := { r with operator := operator }) found
        rw [show Request.counts { r with operator := operator } = r.counts from rfl] at htotal
        rw [counted.openCount, h.openCount, he]
        omega
      · have htotal := total_insert_of_some (w := (Request.reserves · m))
          (u := { r with operator := operator }) found
        rw [show Request.reserves { r with operator := operator } m = r.reserves m from rfl]
          at htotal
        rw [counted.reserved, h.reserved, he]
        omega

/-- Settings leave the tallies. -/
theorem of_reconfigured (h : Tallied s) (hr : Reconfigured s s') : Tallied s' where
  coherent := hr.coherent h.coherent
  requests k r hk := by
    rw [hr.requests] at hk
    have hmints : s'.terms.shareMints = s.terms.shareMints := by rw [hr.terms]; rfl
    obtain ⟨h₁, h₂, h₃⟩ := h.requests k r hk
    exact ⟨h₁.trans hr.key.symm, by rwa [hr.key], by rwa [hmints]⟩
  positive k r hk := by
    rw [hr.requests] at hk
    exact h.positive k r hk
  uninitialized hi := by
    rw [hr.requests]
    exact h.uninitialized (hr.vault.initialized hi)
  openCount := by rw [hr.vault.pendingAsyncRequests, hr.requests, h.openCount]
  reserved m := by
    simpa only [VaultState.reserved, hr.vault.assetMint, hr.vault.pendingDepositAmount,
      hr.vaultAssets, hr.requests] using h.reserved m

/-- A split comes before the first request. -/
theorem initializeTranches (h : Tallied s) {ctx : InitializeTranches}
    {args : InitializeTranchesArgs} (he : initializeTranches s ctx args = .ok s') :
    Tallied s' := by
  obtain ⟨token, hd⟩ := initializeTranches_divides he
  obtain rfl := hd.state
  have hempty := h.uninitialized hd.uninitialized
  refine ⟨⟨fun hnone => absurd hnone (by simp [VaultState.terms, VaultState.split]),
    fun tt htt => ?_, h.coherent.assets⟩, ?_, h.positive, fun _ => hempty, h.openCount, h.reserved⟩
  · obtain rfl : (initialTrancheConfig s.key ctx args).terms = tt := by
      simpa [VaultState.terms, VaultState.split] using htt
    exact ⟨rfl, rfl, hd.distinct, hd.shareMint.imp Eq.symm Eq.symm, hd.minJuniorRatio,
      hd.performanceFee⟩
  · show ∀ k r, s.requests.lookup k = some r → _
    rw [hempty]
    rintro k r ⟨⟩

/-- Registering or removing an asset that nothing is pending in. -/
theorem setAsset (h : Tallied s) {token : Ledger Pubkey} {va : Option VaultAsset} {count : ℕ}
    (hm : s.vault.assetMint ≠ m)
    (hva : ∀ va', va = some va' → va'.vault = s.key ∧ va'.assetMint = m)
    (h0 : ((s.vaultAssets m).map VaultAsset.pendingDepositAmount).getD 0 = 0)
    (h1 : (va.map VaultAsset.pendingDepositAmount).getD 0 = 0) :
    Tallied (s.setAsset token m va count) where
  coherent := by
    refine ⟨h.coherent.plain, fun tt htt => ?_, fun m' a ha => ?_⟩
    · obtain ⟨hpda, ht⟩ := h.coherent.tranched tt htt
      exact ⟨hpda, ht.vault, ht.senior_ne_junior, ht.shareMint, ht.minJuniorRatioBps,
        ht.performanceFeeBps⟩
    -- the written asset has nothing pending before and after, the others are untouched
    · by_cases hmm : m' = m
      · subst hmm
        obtain ⟨va', hva', rfl⟩ : ∃ va', va = some va' ∧ va'.terms = a := by
          simpa [VaultState.terms, VaultState.setAsset] using ha
        obtain ⟨hvault, hasset⟩ := hva va' hva'
        exact ⟨hvault, hasset, hm⟩
      · have ha' : s.terms.assets m' = some a := by
          simpa [VaultState.terms, VaultState.setAsset, hmm] using ha
        exact h.coherent.assets m' a ha'
  requests k r hr :=
    let ⟨h₁, h₂, h₃⟩ := h.requests k r hr
    ⟨h₁, h₂, h₃⟩
  positive := h.positive
  uninitialized := h.uninitialized
  openCount := h.openCount
  reserved m' := by
    refine Eq.trans ?_ (h.reserved m')
    simp only [VaultState.setAsset, VaultState.reserved]
    by_cases hmm : m' = m
    · subst hmm
      simp [hm, h0, h1]
    · simp [hmm]

/-- **Configuration keeps the invariant.** -/
theorem execConfig (h : Tallied s) {i : ConfigInstruction} (he : execConfig s i = .ok s') :
    Tallied s' := by
  by_cases hi : i.IsSetting
  · exact h.of_reconfigured (execConfig_reconfigured hi he)
  · cases i <;> try exact absurd trivial hi
    case initializeTranches => exact h.initializeTranches he
    case addVaultAsset ctx depositCap =>
      obtain ⟨token₁, token, hl⟩ := addVaultAsset_listed he
      rw [hl.state]
      refine h.setAsset (Ne.symm hl.secondary) ?_ (by simp [hl.free]) rfl
      rintro va ⟨⟩
      exact ⟨rfl, rfl⟩
    case removeVaultAsset authority m =>
      obtain ⟨va, token₁, token, count, hremoved⟩ := removeVaultAsset_removed he
      rw [hremoved.state]
      have hprim : s.vault.assetMint ≠ m :=
        (h.coherent.assets m va.terms (by simp [VaultState.terms, hremoved.found])).2.2
      exact h.setAsset hprim (by rintro _ ⟨⟩) (by simp [hremoved.found, hremoved.pending]) rfl

/-- **Every instruction of the core keeps the invariant.** -/
theorem exec (h : Tallied s) {a : Action} (he : exec s a = .ok s') : Tallied s' := by
  cases a with
  | request i remaining =>
    obtain ⟨hframed, htally⟩ := execRequest_tally h.coherent h.requests he
    exact h.of_tally hframed htally
  | instantDeposit ctx amount remaining => exact h.of_kept (instantDeposit_settles he).kept
  | instantRedeem ctx shares remaining => exact h.of_kept (instantRedeem_settles he).kept
  | updateVaultNav authority u remaining => exact h.of_kept (updateVaultNav_settles he).kept
  | config i => exact h.execConfig he
  | world w =>
    obtain ⟨token, clock, rfl, -⟩ := execWorld_outside he
    exact h.of_kept ⟨⟨rfl, fun _ => rfl⟩, rfl, rfl⟩

/-- **Every transaction of the whole program keeps the invariant.** -/
theorem execManaged (h : Tallied t.core) {a : ManagedAction}
    (he : execManaged verify t a = .ok t') : Tallied t'.core := by
  cases a with
  | core b =>
    simp only [AsyncVault.execManaged, bind_eq_ok, pure_eq_ok] at he
    obtain ⟨c, hc, rfl⟩ := he
    exact h.exec hc
  | venue i => exact h.of_kept (execVenue_kept h.coherent he)
  | policy i =>
    rw [execPolicy_core he]
    exact h
  | manageVault ctx args accounts effect => exact h.of_kept (manageVault_kept he)

end Tallied

/-- A pending request is counted. -/
theorem Tallied.exists_decrement (h : Tallied s) (hr : s.requests.lookup k = some r)
    (hp : r.requestState = .pending) {t : VaultState} (hcount : t.vault.pendingAsyncRequests =
      s.vault.pendingAsyncRequests) : ∃ s'', decrementPendingRequests t = .ok s'' := by
  have hone := le_total (w := Request.counts) hr
  rw [Request.counts_pending hp, ← h.openCount, ← hcount] at hone
  simp only [decrementPendingRequests, bind_eq_ok, sub_eq_ok, pure_eq_ok]
  exact ⟨_, _, ⟨hone, rfl⟩, rfl⟩

theorem Created.tallied (h : Created s) : Tallied s := by
  obtain ⟨hw, hunused⟩ := h.wellFormed
  obtain ⟨w, ctx, args, h⟩ := h
  obtain ⟨-, -, -, -, hempty⟩ := createVault_state h
  refine ⟨hw.terms.coherent, hw.requests, ?_, fun _ => hempty, ?_, fun m => ?_⟩
  · rw [hempty]
    rintro k r ⟨⟩
  · rw [hempty]
    exact hunused.openCount
  · rw [hempty]
    exact congrFun hunused.reserved m

/-- **In every reachable state the requests are in order and their counters right**, whatever
managed calls do. -/
theorem ManagedState.IsReachable.tallied (h : t.IsReachable verify) : Tallied t.core :=
  Reachable.invariant (I := fun t => Tallied t.core) (fun _ h₀ => h₀.core.tallied)
    (fun _ _ _ ht he => ht.execManaged he) h

end AsyncVault
