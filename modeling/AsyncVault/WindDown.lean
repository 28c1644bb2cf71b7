/-
AsyncVault/WindDown.lean

Clearing the book.

A curator, or a fulfiller, can get rid of every request that has not been
approved, whether the vault is paused or not: pending requests are rejected, and
canceled ones that still have a place in a queue are skipped.  A queue only
lets its first request go, and that is enough: its lane is in order, so there
always is a first request, and nothing stands in the way of it
(`exists_discharge`).  Every transaction discharges one request, so the number
of transactions is the number of requests (`book_clears`).
-/
import AsyncVault.Collection
import AsyncVault.Lanes

namespace AsyncVault

open Checked TokenLedger KeyedStore Machine TicketLane

variable {s s' : VaultState} {k m a v : Pubkey} {ty : RequestType} {r : Request} {q : FifoQueue}
variable {context : RequestShareMintContext}

/-! ### What a rejection pays -/

/-- The escrow account of the asset `m`. -/
def VaultState.escrowAccount (s : VaultState) (m : Pubkey) : Pubkey :=
  (s.terms.pendingVaultOf m).getD s.vault.pendingVault

/-- The terms name the escrow of each asset. -/
theorem VaultState.escrowAccount_eq (h : s'.terms = s.terms) (m : Pubkey) :
    s'.escrowAccount m = s.escrowAccount m := by
  have hpending : s'.vault.pendingVault = s.vault.pendingVault := congrArg Terms.pendingVault h
  rw [escrowAccount, h, hpending, escrowAccount]

/-- The payment that returns what the request `r` took into the account `a`. -/
def Request.repayment (r : Request) (s : VaultState) (a : Pubkey) : Payout Pubkey :=
  match r.requestType with
  | .deposit => .transfer (s.programOf r.assetMintAddress) (s.escrowAccount r.assetMintAddress)
      r.assetMintAddress a r.amount
  | .redeem => .mint (s.programOf r.shareMintAddress) r.shareMintAddress a r.amount

theorem Request.repayment_dst (r : Request) (s : VaultState) (a : Pubkey) :
    (r.repayment s a).dst = a := by
  unfold repayment
  cases r.requestType <;> rfl

/-- The accounts of a refund of the request at `k` into `a`. -/
def Request.refundAccounts (r : Request) (s : VaultState) (k a : Pubkey) : RefundAccounts where
  assetMint := r.assetMintAddress
  shareMint := r.shareMintAddress
  vaultAsset := some r.assetMintAddress
  request := k
  userTokenAccount := some a
  assetPendingVault := some (s.escrowAccount r.assetMintAddress)
  userShareAccount := some a
  shareTokenProgram := some (s.programOf r.shareMintAddress)
  assetTokenProgram := some (s.programOf r.assetMintAddress)

theorem Request.refundAccounts_eq (h : s'.terms = s.terms) (htoken : s'.token = s.token)
    (r : Request) (k a : Pubkey) : r.refundAccounts s' k a = r.refundAccounts s k a := by
  simp only [refundAccounts, VaultState.programOf, htoken, VaultState.escrowAccount_eq h]

/-- The program of a mint and the escrow of an asset are part of the frame. -/
theorem Framed.repayment (h : Framed s s') (r : Request) (a : Pubkey) :
    r.repayment s' a = r.repayment s a := by
  -- a mint stays with its program
  have hprogram : ∀ m, s'.programOf m = s.programOf m := by
    intro m
    have hm := h.shape.mints m
    unfold VaultState.programOf
    generalize s.token.mints m = y at hm
    generalize s'.token.mints m = y' at hm
    cases hm with
    | none => rfl
    | some hy => rw [Option.map_some, Option.map_some, hy]
  unfold Request.repayment
  simp only [hprogram, VaultState.escrowAccount_eq h.terms]

/-- Something is held for every pending deposit that takes something, so its asset has an
escrow. -/
theorem Covered.exists_escrow (h : Covered s r) (ht : r.requestType = .deposit)
    (hpos : 0 < r.amount) : ∃ v, s.terms.pendingVaultOf r.assetMintAddress = some v := by
  have hle := h.reserved ht
  by_cases hm : s.vault.assetMint = r.assetMintAddress
  · exact ⟨s.vault.pendingVault, by simp [Terms.pendingVaultOf, VaultState.terms, hm]⟩
  · cases hva : s.vaultAssets r.assetMintAddress with
    | none =>
      -- nothing is held for an asset that is not registered
      simp [VaultState.reserved, hm, hva] at hle
      omega
    | some va =>
      exact ⟨va.pendingVault, by
        simp [Terms.pendingVaultOf, VaultState.terms, hm, hva, VaultAsset.terms]⟩

variable {t t' : ManagedState} {verify : MerkleCheck}

/-- What a pending request took can be returned, if burned shares have room. -/
theorem Custodial.repayment_sound (hs : Custodial t) (hf : t.core.Refundable r)
    (hr : t.core.requests.lookup k = some r) (hp : r.requestState = .pending)
    (ha : t.core.token.Holds a r.takenMint r.owner)
    (hroom : r.requestType = .redeem → t.core.token.supply r.shareMintAddress + r.amount < 2 ^ 64) :
    (r.repayment t.core a).Sound t.core.token t.core.key ∧
      (r.repayment t.core a).Funded t.core.token := by
  have hv := hs.valid
  have hcovered := hs.ledgered.covered hr hp
  unfold Request.takenMint at ha
  unfold Request.repayment
  cases ht : r.requestType with
  | deposit =>
    simp only [ht] at ha
    obtain ⟨y, hy⟩ := Option.isSome_iff_exists.1 hf.assetMint
    -- a deposit comes out of the escrow of its asset, which covers it
    obtain ⟨v, hescrow⟩ := hcovered.exists_escrow ht hf.positive
    have haccount : t.core.escrowAccount r.assetMintAddress = v := by
      rw [VaultState.escrowAccount, hescrow]
      rfl
    simp only [haccount]
    exact ⟨⟨⟨y, hy, (VaultState.programOf_of_some hy).symm⟩, hv.holds_pendingVaultOf hescrow, _,
      ha⟩, hcovered.escrow ht v hescrow⟩
  | redeem =>
    simp only [ht] at ha
    obtain ⟨y, hy, hconf⟩ := hf.shareMint ht
    -- a redemption is minted anew, and the vault may mint its shares
    obtain ⟨z, hz, hauth⟩ := hv.mintable _ (hs.ledgered.wellFormed.requests _ _ hr).shareMint
    obtain rfl := Option.some.inj (hy.symm.trans hz)
    exact ⟨⟨⟨y, hy, (VaultState.programOf_of_some hy).symm, hconf, hauth⟩, _, ha⟩, hroom ht⟩

/-- A refund that can be paid succeeds. -/
theorem exists_refund (hs : Tallied s) (hr : s.requests.lookup k = some r)
    (hp : r.requestState = .pending) (ha : s.token.Holds a r.takenMint r.owner)
    (hescrow : r.requestType = .deposit → ∃ v, s.terms.pendingVaultOf r.assetMintAddress = some v)
    (hsound : (r.repayment s a).Sound s.token s.key) (hopen : (r.repayment s a).Open s.token)
    (hfunded : (r.repayment s a).Funded s.token) :
    ∃ s', refund s (r.refundAccounts s k a) r = .ok s' ∧
      s.token.pay s.key (r.repayment s a) = .ok s'.token := by
  obtain ⟨token, hpay⟩ := exists_pay hsound hopen hfunded
  unfold Request.takenMint at ha
  unfold Request.repayment at hpay hsound ⊢
  cases ht : r.requestType with
  | deposit =>
    simp only [ht] at ha hpay hsound ⊢
    obtain ⟨v, hv⟩ := hescrow ht
    have haccount : s.escrowAccount r.assetMintAddress = v := by
      rw [VaultState.escrowAccount, hv]
      rfl
    rw [haccount] at hpay hsound ⊢
    -- the request is counted, so neither counter underflows
    obtain ⟨s₁, h₁⟩ := exists_subPendingDeposit hv (hs.le_reserved hr hp ht)
    have hcheck := checkPendingVault_eq_ok hs.coherent hv
    have hsub := subPendingDeposit_ok h₁ (checkPendingVault_ok hs.coherent hcheck).2
    obtain ⟨s₂, h₂⟩ := hs.exists_decrement hr hp (t := s₁.put token s₁.requests)
      (congrArg OrderBook.Book.openCount hsub.book)
    have htoken : s₂.token = token := (decrementPendingRequests_ok h₂).token
    have hpending : (r.refundAccounts s k a).assetPendingVault = some v := congrArg some haccount
    exact ⟨s₂, (refund_deposit_iff ht).2
      ⟨v, a, _, token, s₁, hpending, hsound.2.1, hcheck, rfl, ha, rfl, hpay, h₁, h₂⟩,
      by rw [htoken]; exact hpay⟩
  | redeem =>
    simp only [ht] at ha hpay ⊢
    obtain ⟨s₁, h₁⟩ := hs.exists_decrement hr hp (t := s.put token s.requests) rfl
    have htoken : s₁.token = token := (decrementPendingRequests_ok h₁).token
    exact ⟨s₁, (refund_redeem_iff ht).2 ⟨a, _, token, rfl, ha, rfl, hpay, h₁⟩,
      by rw [htoken]; exact hpay⟩

/-! ### The first request of a lane -/

/-- A request may go: its lane is no queue, or it has the id that is next. -/
def VaultState.MayGo (s : VaultState) (r : Request) : Prop :=
  ∀ q, s.lane r.shareMintAddress r.requestType = some q → r.queueId r.requestType = some q.expected

/-- A queue lets the request with the next id go. -/
theorem exists_advanceQueue (hc : s.terms.Coherent)
    (hmint : r.shareMintAddress ∈ s.terms.shareMints)
    (hcontext : context.trancheInfo.isSome = s.docket.tranched) (hgo : s.MayGo r) :
    ∃ s', advanceQueue s context r.shareMintAddress r s.trancheInfo = .ok s' := by
  unfold advanceQueue
  cases hsome : context.trancheInfo.isSome with
  | false =>
    -- without tranches the queue extension is the lane
    have hplain : s.vault.trancheConfig = none := by
      rw [hcontext] at hsome
      exact Option.isSome_eq_false_iff.1 hsome |> Option.isNone_iff_eq_none.1
    have hlane : s.lane r.shareMintAddress r.requestType = s.extensions.queue r.requestType :=
      lane_plain hplain _ _
    rw [if_neg (by decide)]
    simp only [bind_eq_ok, pure_eq_ok, VaultExtensions.checkAndAdvanceQueue]
    cases hq : s.extensions.queue r.requestType with
    | none => exact ⟨_, _, rfl, rfl⟩
    | some q =>
      have hid := hgo q (hlane.trans hq)
      simp only [bind_eq_ok, okOr_eq_ok, FifoQueue.advance, ensure_eq_ok, pure_eq_ok]
      exact ⟨_, _, ⟨_, hid, _, ⟨(), rfl, rfl⟩, rfl⟩, rfl⟩
  | true =>
    -- with tranches the extension only says whether there are lanes
    obtain ⟨pda, hpda⟩ := Option.isSome_iff_exists.1 (hcontext.symm.trans hsome)
    rw [if_pos rfl]
    by_cases hfifo : s.extensions.hasFifoQueue r.requestType = true
    · rw [if_pos hfifo]
      cases htc : s.trancheConfig with
      | none =>
        -- a vault that names a tranche configuration has one
        have hnone := hc.plain (by simp [VaultState.terms, htc])
        rw [show s.terms.trancheConfig = s.vault.trancheConfig from rfl, hpda] at hnone
        cases hnone
      | some tc =>
        have hmem : r.shareMintAddress = tc.seniorShareMint ∨
            r.shareMintAddress = tc.juniorShareMint := by
          simpa [Terms.shareMints, VaultState.terms, htc, TrancheConfig.terms] using hmint
        obtain ⟨q, hq⟩ : ∃ q, tc.lane r.shareMintAddress r.requestType = .ok q := by
          unfold TrancheConfig.lane
          by_cases hsenior : r.shareMintAddress = tc.seniorShareMint
          · exact ⟨_, by rw [if_pos hsenior]; rfl⟩
          · exact ⟨_, by rw [if_neg hsenior, if_pos (hmem.resolve_left hsenior)]; rfl⟩
        have hid := hgo q (lane_tranched hpda hfifo htc hq)
        simp only [bind_eq_ok, okOr_eq_ok, TrancheConfig.checkAndAdvanceQueue, FifoQueue.advance,
          ensure_eq_ok, pure_eq_ok, writableTrancheConfig, VaultState.trancheInfo,
          VaultState.loadTrancheConfig, require_eq_ok]
        exact ⟨_, tc, ⟨_, rfl, (), rfl, (), rfl, htc⟩, _, hid, _, ⟨q, hq, _, ⟨(), rfl, rfl⟩, rfl⟩,
          rfl⟩
    · rw [if_neg hfifo]
      exact ⟨s, rfl⟩

variable {t₀ : ManagedState} {tr : List (Transition ManagedState ManagedAction)}

/-- Where a request has not been processed, there is one that may go. -/
theorem LanesOrdered.exists_first (h : LanesOrdered tr t)
    (hcount : ∀ m ty, tr.countP (opensIn m ty) < u64) (hr : t.core.requests.lookup k = some r)
    (hwaits : r.Unprocessed) :
    ∃ k' r', t.core.requests.lookup k' = some r' ∧ r'.Unprocessed ∧ t.core.MayGo r' := by
  cases hq : t.core.lane r.shareMintAddress r.requestType with
  | none =>
    -- outside a queue every request may go
    refine ⟨k, r, hr, hwaits, fun q hq' => ?_⟩
    rw [hq] at hq'
    cases hq'
  | some q =>
    obtain ⟨htotal, hord⟩ := h.ordered _ _ q hq
    have hin : t.core.docket.InLane r.shareMintAddress r.requestType r := ⟨rfl, fun _ => rfl⟩
    -- the lane holds the id of `r`, so it is not empty
    obtain ⟨id, -, hlo, hhi⟩ := (inOrder_of_ordered hord).only k r hr hin hwaits
    have hlt : q.lastProcessed + 1 ≤ q.total := by omega
    obtain ⟨k', ⟨r', hr', hin', hwaits', hid⟩, -⟩ :=
      (inOrder_of_ordered hord).held (q.lastProcessed + 1) (Nat.lt_succ_self _) hlt
    refine ⟨k', r', hr', hwaits', fun q' hq' => ?_⟩
    have hsame : t.core.lane r'.shareMintAddress r'.requestType = some q :=
      ((docket_uniform t.core).lane_eq hin').trans hq
    obtain rfl := Option.some.inj (hsame.symm.trans hq')
    -- with fewer than `2 ^ 64` requests opened the ids have not wrapped around
    have hexpected : q.expected = q.lastProcessed + 1 := by
      have := hcount r.shareMintAddress r.requestType
      exact Nat.mod_eq_of_lt (by omega)
    rw [hexpected, hin'.1]
    exact hid

/-! ### One transaction -/

/-- The transaction rejects a request on the signature of `authority`, or skips one. -/
def ManagedAction.Discharges (authority : Pubkey) : ManagedAction → Prop
  | .core (.request (.rejectRequest signer _ _ _) _) => signer = authority
  | .core (.request (.skipCanceledQueueRequest _ _) _) => True
  | _ => False

theorem ManagedAction.Discharges.unmanaged {authority : Pubkey} {b : ManagedAction}
    (h : b.Discharges authority) : b.Unmanaged := by
  unfold Discharges at h
  split at h
  · trivial
  · trivial
  · exact h.elim

/-- Discharging opens no request. -/
theorem opensIn_of_discharges {authority : Pubkey} {x : Transition ManagedState ManagedAction}
    (h : x.act.Discharges authority) : opensIn m ty x = false := by
  unfold ManagedAction.Discharges at h
  unfold opensIn
  split at h
  · next he => rw [he]; rfl
  · next he => rw [he]; rfl
  · exact h.elim

/-- The curator and the fulfiller may reject. -/
def VaultState.Rejects (s : VaultState) (authority : Pubkey) : Prop :=
  authority ≠ s.key ∧ (authority = s.vault.curator ∨ authority = s.vault.fulfiller)

theorem Operated.rejects {authority : Pubkey} (h : Operated s s') (hs : s.Rejects authority) :
    s'.Rejects authority := by
  have hcurator : s'.vault.curator = s.vault.curator := by
    simpa [Vault.settings] using congrArg Vault.curator h.settings
  have hfulfiller : s'.vault.fulfiller = s.vault.fulfiller := by
    simpa [Vault.settings] using congrArg Vault.fulfiller h.settings
  refine ⟨by rw [h.key]; exact hs.1, ?_⟩
  rw [hcurator, hfulfiller]
  exact hs.2

/-- What discharging the request at `k` leaves. -/
structure Discharged (s s' : VaultState) (k : Pubkey) (r : Request) (a : Pubkey) : Prop extends
    Operated s s', Framed s s' where
  requests : s'.requests = s.requests.erase k
  paid : r.requestState = .pending ∧ Paid s.token s'.token (r.repayment s a) ∨
    r.requestState = .canceled ∧ s'.token = s.token

/-- What a rejection does to a pending request that may go: it leaves its queue, and what it took
is paid back. -/
theorem Custodial.exists_withdrawn (hs : Custodial t) (htallied : Tallied t.core)
    (hf : t.core.Refundable r) (hr : t.core.requests.lookup k = some r)
    (hp : r.requestState = .pending) (hgo : t.core.MayGo r)
    (ha : t.core.token.Holds a r.takenMint r.owner)
    (hopen : (r.repayment t.core a).Open t.core.token)
    (hroom : r.requestType = .redeem → t.core.token.supply r.shareMintAddress + r.amount < 2 ^ 64) :
    ∃ context s₁ s₂, checkRequestMints t.core r.assetMintAddress r.shareMintAddress r
        t.core.trancheInfo = .ok context ∧
      advanceQueue t.core context r.shareMintAddress r t.core.trancheInfo = .ok s₁ ∧
      refund s₁ (r.refundAccounts t.core k a) r = .ok s₂ ∧
      t.core.token.pay t.core.key (r.repayment t.core a) = .ok s₂.token := by
  have hok := htallied.requests _ _ hr
  obtain ⟨hsound, hfunded⟩ := hs.repayment_sound hf hr hp ha hroom
  obtain ⟨z, hz, -⟩ := hs.valid.mintable _ hok.shareMint
  obtain ⟨context, hmints⟩ := exists_checkRequestMints htallied.coherent hok hf.assetMint
    (by rw [hz]; rfl)
  obtain ⟨s₁, h₁⟩ := exists_advanceQueue htallied.coherent hok.shareMint
    (checkRequestMints_docket hmints).2.2 hgo
  -- leaving the queue moves no tokens and keeps the terms
  have hqueue := advanceQueue_ok h₁
  have hkey : s₁.key = t.core.key := congrArg Terms.key hqueue.terms
  have htoken : s₁.token = t.core.token := hqueue.adjusted.token
  have hrepayment := hqueue.adjusted.framed.repayment r a
  have htallied₁ : Tallied s₁ :=
    htallied.of_kept ⟨hqueue.uncounted, hqueue.terms, hqueue.adjusted.requests⟩
  have hr₁ : s₁.requests.lookup k = some r := by
    rw [hqueue.adjusted.requests]
    exact hr
  have hescrow : r.requestType = .deposit →
      ∃ v, s₁.terms.pendingVaultOf r.assetMintAddress = some v := by
    intro ht
    rw [hqueue.terms]
    exact (hs.ledgered.covered hr hp).exists_escrow ht hf.positive
  rw [← htoken] at ha hsound hopen hfunded
  rw [← hkey, ← hrepayment] at hsound
  rw [← hrepayment] at hopen hfunded
  obtain ⟨s₂, h₂, hpay⟩ := exists_refund htallied₁ hr₁ hp ha hescrow hsound hopen hfunded
  rw [Request.refundAccounts_eq hqueue.terms htoken] at h₂
  rw [hrepayment, htoken, hkey] at hpay
  exact ⟨context, s₁, s₂, hmints, h₁, h₂, hpay⟩

/-- A pending request that may go can be rejected. -/
theorem exists_reject (verify : MerkleCheck) (hs : Custodial t) (htallied : Tallied t.core)
    (hf : t.core.AllRefundable) {authority : Pubkey} (hauth : t.core.Rejects authority)
    (hr : t.core.requests.lookup k = some r) (hp : r.requestState = .pending)
    (hgo : t.core.MayGo r) (ha : t.core.token.Holds a r.takenMint r.owner)
    (hopen : (r.repayment t.core a).Open t.core.token)
    (hroom : r.requestType = .redeem → t.core.token.supply r.shareMintAddress + r.amount < 2 ^ 64) :
    ∃ b t', b.Discharges authority ∧ execManaged verify t b = .ok t' ∧
      Discharged t.core t'.core k r a := by
  have hok := htallied.requests _ _ hr
  obtain ⟨context, s₁, s₂, hmints, h₁, h₂, hpay⟩ :=
    hs.exists_withdrawn htallied (hf k r hr hp) hr hp hgo ha hopen hroom
  have hqueue := advanceQueue_ok h₁
  -- the expected fields of the call are those of the request itself
  have hreject : rejectRequest t.core authority r.owner (r.refundAccounts t.core k a)
      ⟨r.owner, r.requestType, r.amount, r.createdAt, r.navUpdateVersion⟩ t.core.trancheInfo =
        .ok { s₂ with requests := s₂.requests.erase k } := by
    exact rejectRequest_iff.2 ⟨r, context, s₁, s₂, ⟨hr, hok.vault, hp, hmints⟩, hauth.1, rfl,
      hauth.2, ⟨rfl, rfl, rfl, rfl, rfl⟩, h₁, h₂, rfl⟩
  refine ⟨.core (.request (.rejectRequest authority r.owner (r.refundAccounts t.core k a)
    ⟨r.owner, r.requestType, r.amount, r.createdAt, r.navUpdateVersion⟩) t.core.trancheInfo),
    { t with core := { s₂ with requests := s₂.requests.erase k } }, rfl, ?_, ?_⟩
  · simp only [execManaged, bind_eq_ok, pure_eq_ok]
    exact ⟨_, hreject, rfl⟩
  -- what it leaves is read off the general specifications
  · obtain ⟨d, hd, -⟩ := rejectRequest_worked hreject
    have hcoherent : s₁.terms.Coherent := by
      rw [hqueue.terms]
      exact htallied.coherent
    have hrequests : s₂.requests = t.core.requests :=
      (refund_tally hcoherent hp rfl h₂).2.1.trans hqueue.adjusted.requests
    refine ⟨hd.toOperated, (rejectRequest_tally htallied.coherent hreject).1, ?_, .inl ⟨hp, ?_⟩⟩
    · show s₂.requests.erase k = _
      rw [hrequests]
    · have houtward : (r.repayment t.core a).Outward t.core.token t.core.key := by
        refine ⟨r.takenMint, r.owner, ?_, hok.owner⟩
        rw [Request.repayment_dst]
        exact ha
      exact pay_ok houtward hpay

/-- A canceled request that may go can be skipped by anyone. -/
theorem exists_skip (verify : MerkleCheck) (hs : Tallied t.core)
    (hr : t.core.requests.lookup k = some r)
    (hcanceled : r.requestState = .canceled) (hgo : t.core.MayGo r) (authority a : Pubkey) :
    ∃ b t', b.Discharges authority ∧ execManaged verify t b = .ok t' ∧
      Discharged t.core t'.core k r a := by
  have hok := hs.requests _ _ hr
  obtain ⟨context, hcontext⟩ := exists_validateRequestShareMint hs.coherent hok.shareMint
  obtain ⟨s₁, h₁⟩ := exists_advanceQueue hs.coherent hok.shareMint
    (validateRequestShareMint_tranched hcontext) hgo
  have hqueue := advanceQueue_ok h₁
  have hskip : skipCanceledQueueRequest t.core k r.owner t.core.trancheInfo =
      .ok { s₁ with requests := s₁.requests.erase k } := by
    exact skipCanceledQueueRequest_iff.2
      ⟨r, context, s₁, hr, hok.vault, hcanceled, rfl, hcontext, h₁, rfl⟩
  refine ⟨.core (.request (.skipCanceledQueueRequest k r.owner) t.core.trancheInfo),
    { t with core := { s₁ with requests := s₁.requests.erase k } }, trivial, ?_, ?_⟩
  · simp only [execManaged, bind_eq_ok, pure_eq_ok]
    exact ⟨_, hskip, rfl⟩
  · obtain ⟨d, hd, -⟩ := skipCanceledQueueRequest_worked hskip
    refine ⟨hd.toOperated, hqueue.adjusted.framed.put (.refl _) _, ?_,
      .inr ⟨hcanceled, hqueue.adjusted.token⟩⟩
    show s₁.requests.erase k = _
    rw [hqueue.adjusted.requests]

/-! ### All of them -/

/-- The requests that have not been processed. -/
def VaultState.unprocessed (s : VaultState) : List (Pubkey × Request) :=
  (records s.requests).filter fun x => decide x.2.Unprocessed

/-- The payments that return what all pending requests took. -/
def VaultState.repayments (s : VaultState) (into : Pubkey → Pubkey) : List (Payout Pubkey) :=
  ((records s.requests).filter fun x => decide (x.2.requestState = .pending)).map
    fun x => x.2.repayment s (into x.1)

theorem VaultState.mem_unprocessed {x : Pubkey × Request} :
    x ∈ s.unprocessed ↔ s.requests.lookup x.1 = some x.2 ∧ x.2.Unprocessed := by
  rw [unprocessed, List.mem_filter, mem_records, decide_eq_true_eq]

/-- The shares burned for a pending redemption. -/
def Request.burned (r : Request) (m : Pubkey) : ℕ :=
  if r.requestType = .redeem ∧ r.requestState = .pending ∧ r.shareMintAddress = m then r.amount
  else 0

theorem VaultState.pendingRedeems_eq (s : VaultState) (m : Pubkey) :
    s.pendingRedeems m = total (Request.burned · m) s.requests :=
  rfl

namespace Discharged

/-- One request less. -/
theorem unprocessed (h : Discharged s s' k r a) (hr : s.requests.lookup k = some r) :
    s.unprocessed.length = s'.unprocessed.length + 1 := by
  have hwaits : r.Unprocessed := h.paid.imp And.left And.left
  have hperm := (records_perm_of_lookup hr).filter fun x => decide x.2.Unprocessed
  rw [List.filter_cons_of_pos (by simpa using hwaits), ← h.requests] at hperm
  exact hperm.length_eq

/-- What is to be returned has been returned, or is still to be. -/
theorem repayments (h : Discharged s s' k r a) (hr : s.requests.lookup k = some r)
    {into : Pubkey → Pubkey} (ha : into k = a) {token : Ledger Pubkey}
    (hpaid : PaidAll s'.token token (s'.repayments into)) :
    PaidAll s.token token (s.repayments into) := by
  have hperm := (records_perm_of_lookup hr).filter fun x => decide (x.2.requestState = .pending)
  have hrest : (((records (s.requests.erase k)).filter fun x =>
      decide (x.2.requestState = .pending)).map fun x => x.2.repayment s (into x.1)) =
      s'.repayments into := by
    rw [VaultState.repayments, h.requests]
    exact List.map_congr_left fun x _ => (h.toFramed.repayment x.2 (into x.1)).symm
  rcases h.paid with ⟨hp, hfirst⟩ | ⟨hcanceled, htoken⟩
  · -- the rejected request is paid first, then the others
    rw [List.filter_cons_of_pos (by simpa using hp)] at hperm
    have hall := hperm.map fun x => x.2.repayment s (into x.1)
    rw [List.map_cons, hrest] at hall
    rw [← ha] at hfirst
    exact (PaidAll.cons hfirst hpaid).perm hall.symm
  · -- a canceled request was paid when it was canceled
    rw [List.filter_cons_of_neg (by simp [hcanceled])] at hperm
    have hall := hperm.map fun x => x.2.repayment s (into x.1)
    rw [hrest] at hall
    rw [htoken] at hpaid
    exact hpaid.perm hall.symm

/-- Burned shares that are not returned yet are still pending. -/
theorem supply_add (h : Discharged s s' k r a) (hr : s.requests.lookup k = some r) (m : Pubkey) :
    s'.token.supply m + s'.pendingRedeems m = s.token.supply m + s.pendingRedeems m := by
  have htotal := total_erase_of_some (w := (Request.burned · m)) hr
  rw [← h.requests] at htotal
  rw [VaultState.pendingRedeems_eq, VaultState.pendingRedeems_eq]
  rcases h.paid with ⟨hp, hfirst⟩ | ⟨hcanceled, htoken⟩
  · -- a rejection mints what the request had burned
    have hsupply := hfirst.supply m
    have hminted : (r.repayment s a).minted m = r.burned m := by
      unfold Request.repayment Request.burned
      cases ht : r.requestType <;> simp [Payout.minted, hp]
    rw [hminted] at hsupply
    omega
  · have hnone : r.burned m = 0 := if_neg fun h => by
      rw [hcanceled] at h
      cases h.2.1
    rw [hnone] at htotal
    rw [htoken]
    omega

end Discharged

/-- The share mints have room for the shares of all pending redemptions. -/
def VaultState.RoomForPending (s : VaultState) : Prop :=
  ∀ m ∈ s.terms.shareMints, s.token.supply m + s.pendingRedeems m < 2 ^ 64

/-- The owner of each pending request has an account for what it took, and its mint and the
accounts let it through. -/
def VaultState.Receives (s : VaultState) (into : Pubkey → Pubkey) : Prop :=
  ∀ k r, s.requests.lookup k = some r → r.requestState = .pending →
    s.token.Holds (into k) r.takenMint r.owner ∧ (r.repayment s (into k)).Open s.token

/-- One transaction discharges one request, wherever there is one. -/
theorem exists_discharge (h₀ : t₀.Created) (hrun : ManagedRun verify t₀ tr t)
    (hu : ∀ x ∈ tr, x.act.Unmanaged) (hcount : ∀ m ty, tr.countP (opensIn m ty) < u64)
    {authority : Pubkey} (hauth : t.core.Rejects authority) {into : Pubkey → Pubkey}
    (hinto : t.core.Receives into) (hroom : t.core.RoomForPending)
    (hne : t.core.unprocessed ≠ []) :
    ∃ b k r t', b.Discharges authority ∧ execManaged verify t b = .ok t' ∧
      t.core.requests.lookup k = some r ∧ Discharged t.core t'.core k r (into k) := by
  have htallied : Tallied t.core := ManagedState.IsReachable.tallied ⟨t₀, tr, h₀, hrun⟩
  -- some request waits, and so one of them is first in its lane
  obtain ⟨x, hx⟩ := List.exists_mem_of_ne_nil _ hne
  obtain ⟨hx, hwaits⟩ := VaultState.mem_unprocessed.1 hx
  obtain ⟨k, r, hr, hwaits, hgo⟩ := (lanesOrdered_of_run h₀ hrun hcount).exists_first hcount hx
    hwaits
  rcases hwaits with hp | hcanceled
  -- the shares of a pending redemption are among those there must be room for
  · have hle := le_total (w := (Request.burned · r.shareMintAddress)) hr
    have hlt := hroom _ (htallied.requests _ _ hr).shareMint
    rw [VaultState.pendingRedeems_eq] at hlt
    obtain ⟨b, t', hb, he, hd⟩ := exists_reject verify (hrun.custodial h₀ hu) htallied
      (hrun.allRefundable h₀ hu) hauth hr hp hgo (hinto k r hr hp).1 (hinto k r hr hp).2
      fun ht => by
        rw [Request.burned, if_pos ⟨ht, hp, rfl⟩] at hle
        omega
    exact ⟨b, k, r, t', hb, he, hr, hd⟩
  · obtain ⟨b, t', hb, he, hd⟩ := exists_skip verify htallied hr hcanceled hgo authority
      (into k)
    exact ⟨b, k, r, t', hb, he, hr, hd⟩

/-- The outcome of clearing the book. -/
structure Cleared (s s' : VaultState) (into : Pubkey → Pubkey) : Prop extends Operated s s' where
  requests : ∀ k r, s'.requests.lookup k = some r ↔
    s.requests.lookup k = some r ∧ ¬r.Unprocessed
  paid : PaidAll s.token s'.token (s.repayments into)

/-- Where nothing is unprocessed, the book is clear. -/
theorem Cleared.of_nil (h : s.unprocessed = []) (into : Pubkey → Pubkey) : Cleared s s into where
  toOperated := .refl s
  requests k r := by
    refine ⟨fun hr => ⟨hr, fun hwaits => ?_⟩, And.left⟩
    have hmem : (k, r) ∈ s.unprocessed := VaultState.mem_unprocessed.2 ⟨hr, hwaits⟩
    rw [h] at hmem
    cases hmem
  paid := by
    have hnone : s.repayments into = [] := by
      rw [VaultState.repayments, List.map_eq_nil_iff, List.filter_eq_nil_iff]
      intro x hx hp
      have hmem : x ∈ s.unprocessed :=
        VaultState.mem_unprocessed.2 ⟨mem_records.1 hx, .inl (of_decide_eq_true hp)⟩
      rw [h] at hmem
      cases hmem
    rw [hnone]
    exact .nil _

/-- A discharge in front of a clearing. -/
theorem Discharged.cleared {s₁ : VaultState} {into : Pubkey → Pubkey}
    (h : Discharged s s₁ k r (into k)) (hr : s.requests.lookup k = some r)
    (hrest : Cleared s₁ s' into) : Cleared s s' into where
  toOperated := h.toOperated.trans hrest.toOperated
  requests k' r' := by
    rw [hrest.requests, h.requests]
    by_cases hk : k' = k
    · subst hk
      have hwaits : r.Unprocessed := h.paid.imp And.left And.left
      rw [AList.lookup_erase, hr]
      constructor
      · rintro ⟨hgone, -⟩
        cases hgone
      · rintro ⟨hsame, hdone⟩
        rw [← Option.some.inj hsame] at hdone
        exact absurd hwaits hdone
    · rw [AList.lookup_erase_ne hk]
  paid := h.repayments hr rfl hrest.paid

/-- Discharging one request leaves what is needed to discharge the others. -/
theorem Discharged.receives {into : Pubkey → Pubkey} (h : Discharged s s' k r a)
    (hinto : s.Receives into) : s'.Receives into := by
  intro k' r' hr' hp
  rw [h.requests] at hr'
  obtain ⟨hholds, hopen⟩ := hinto k' r' (VaultState.lookup_of_erase hr') hp
  rw [h.toFramed.repayment]
  exact ⟨h.shape.holds hholds, hopen.sameShape h.shape⟩

theorem Discharged.room (h : Discharged s s' k r a) (hr : s.requests.lookup k = some r)
    (hroom : s.RoomForPending) : s'.RoomForPending := by
  intro m hm
  rw [h.terms] at hm
  rw [h.supply_add hr m]
  exact hroom m hm

/-- The book is cleared one request after the other. -/
theorem exists_cleared (h₀ : t₀.Created) (hrun : ManagedRun verify t₀ tr t)
    (hu : ∀ x ∈ tr, x.act.Unmanaged) (hcount : ∀ m ty, tr.countP (opensIn m ty) < u64)
    {authority : Pubkey} (hauth : t.core.Rejects authority) {into : Pubkey → Pubkey}
    (hinto : t.core.Receives into) (hroom : t.core.RoomForPending) :
    ∃ bs t', Plays (execManaged verify) t bs t' ∧ (∀ b ∈ bs, b.Discharges authority) ∧
      bs.length = t.core.unprocessed.length ∧ Cleared t.core t'.core into := by
  -- on the number of requests that are left
  induction hn : t.core.unprocessed.length generalizing t tr with
  | zero =>
    refine ⟨[], t, .nil, ?_, rfl, .of_nil (List.length_eq_zero_iff.1 hn) into⟩
    intro b hb
    cases hb
  | succ n ih =>
    have hne : t.core.unprocessed ≠ [] := by
      rw [← List.length_pos_iff]
      omega
    obtain ⟨b, k, r, t₁, hb, he, hr, hd⟩ :=
      exists_discharge h₀ hrun hu hcount hauth hinto hroom hne
    have hless := hd.unprocessed hr
    -- the longer run is of the same kind, so the hypotheses hold after it
    have hu' : ∀ x ∈ tr ++ [Transition.mk t b t₁], x.act.Unmanaged := by
      intro x hx
      rcases List.mem_append.1 hx with hx | hx
      · exact hu x hx
      · rw [List.mem_singleton.1 hx]
        exact hb.unmanaged
    have hcount' : ∀ m ty, (tr ++ [Transition.mk t b t₁]).countP (opensIn m ty) < u64 := by
      intro m ty
      have hnew : opensIn m ty ⟨t, b, t₁⟩ = false := opensIn_of_discharges hb
      rw [List.countP_append, List.countP_singleton, hnew]
      exact hcount m ty
    obtain ⟨bs, t', hplays, hbs, hlength, hcleared⟩ := ih (hrun.snoc he) hu' hcount'
      (hd.toOperated.rejects hauth) (hd.receives hinto) (hd.room hr hroom) (by omega)
    refine ⟨b :: bs, t', .cons he hplays, ?_, ?_, hd.cleared hr hcleared⟩
    · exact List.forall_mem_cons.2 ⟨hb, hbs⟩
    · rw [List.length_cons, hlength]

namespace Scenario

/-- Of three queued deposits the first is taken back; the breaker pauses the vault. -/
def queuedAndPaused : List Action :=
  openQueues ++ [start, deposit 100 senior 10, deposit 101 senior 20, deposit 102 senior 30,
    cancelQueuedDeposit 100 senior, .config (.pauseVault curator)]

/-- The curator may reject, the owners have accounts, and the supplies have room. -/
def clearable (s : VaultState) : Bool :=
  s.vault.paused && decide (s.vault.curator = curator) && decide (curator ≠ s.key) &&
    decide (s.unprocessed.length = 3) &&
    ((records s.requests).all fun x => decide (x.2.requestState ≠ .pending) ||
      ((s.token.accounts userAsset).any fun y =>
        decide (y.mint = x.2.takenMint) && decide (y.owner = x.2.owner)) &&
      decide ((x.2.repayment s userAsset).Open s.token)) &&
    s.terms.shareMints.all fun m => decide (s.token.supply m + s.pendingRedeems m < 2 ^ 64)

end Scenario

end AsyncVault
