/-
AsyncVault/RequestEffects.lean

What each request instruction does, apart from the approval.

An accepted instruction is described twice.  `RequestEffect` says what happened
to the request account it names and which tokens moved: opening takes exactly
the request's amount from its owner, a claim or a refund pays exactly the
request's amount to an account of its owner.  `Tracked` says that the vault keeps
its shares and that, read as an order book, it takes the step of the same name:
at its own escrow balances where it has the accounts its terms name, and at some
balances in any case.
-/
import AsyncVault.Handlers

namespace AsyncVault

open Checked TokenLedger KeyedStore OrderBook Function

/-! ### Effects -/

/-- Shares were created in an account of the request's owner. -/
def SharesPaid (s : VaultState) (token : Ledger Pubkey) (r : Request) : Prop :=
  ∃ dst, s.token.Holds dst r.shareMintAddress r.owner ∧
    Minted s.token token r.shareMintAddress dst s.key r.amount

/-- Assets went out of their escrow to an account of the request's owner, which is credited what
the transfer fee of the asset leaves. -/
def AssetsPaid (s : VaultState) (token : Ledger Pubkey) (r : Request) : Prop :=
  ∃ program src dst, s.terms.pendingVaultOf r.assetMintAddress = some src ∧
    s.token.Holds dst r.assetMintAddress r.owner ∧ src ≠ dst ∧
    Transferred s.token token program src r.assetMintAddress dst s.key r.amount

/-- Shares were destroyed in an account of the request's owner. -/
def SharesTaken (s : VaultState) (token : Ledger Pubkey) (r : Request) : Prop :=
  ∃ src, Burned s.token token src r.shareMintAddress r.owner r.amount

/-- Assets went from an account of the request's owner into their escrow, none of
them withheld on the way. -/
def AssetsTaken (s : VaultState) (token : Ledger Pubkey) (r : Request) : Prop :=
  ∃ program src dst, s.terms.pendingVaultOf r.assetMintAddress = some dst ∧
    Transferred s.token token program src r.assetMintAddress dst r.owner r.amount ∧
    token.balance dst = s.token.balance dst + r.amount

/-- What opening a request takes. -/
def Taken (s : VaultState) (token : Ledger Pubkey) (r : Request) : Prop :=
  match r.requestType with
  | .deposit => AssetsTaken s token r
  | .redeem => SharesTaken s token r

/-- What a refund pays. -/
def Refunded (s : VaultState) (token : Ledger Pubkey) (r : Request) : Prop :=
  match r.requestType with
  | .deposit => AssetsPaid s token r
  | .redeem => SharesPaid s token r

/-- What a claim pays. -/
def Settled (s : VaultState) (token : Ledger Pubkey) (r : Request) : Prop :=
  match r.requestType with
  | .deposit => SharesPaid s token r
  | .redeem => AssetsPaid s token r

/-- The same request, but for its operator. -/
def Request.Same (r q : Request) : Prop := q = { r with operator := q.operator }

theorem Request.Same.refl (r : Request) : r.Same r := rfl

theorem Request.Same.trans {r q r' : Request} (h : r.Same q) (h' : q.Same r') : r.Same r' := by
  unfold Request.Same at h h' ⊢
  rw [h'] at *
  rw [h]

/-- What happened to the request at `k`, and what was taken or paid for it. -/
inductive RequestEffect (s s' : VaultState) (k : Pubkey) : Event Pubkey → Prop
  | opened {r : Request} (free : s.requests.lookup k = none) (state : r.requestState = .pending)
      (ok : s.RequestOk r) (requests : s'.requests = s.requests.insert k r)
      (taken : Taken s s'.token r) : RequestEffect s s' k (.opened k)
  | approved {r : Request} {amount price : ℕ} (found : s.requests.lookup k = some r)
      (state : r.requestState = .pending)
      (requests : s'.requests = s.requests.insert k
        { r with amount := amount, price := price, requestState := .claimable }) :
      RequestEffect s s' k (.approved k)
  | claimed {r : Request} (found : s.requests.lookup k = some r)
      (state : r.requestState = .claimable) (requests : s'.requests = s.requests.erase k)
      (paid : Settled s s'.token r) : RequestEffect s s' k (.claimed k)
  | refunded {r : Request} (found : s.requests.lookup k = some r)
      (state : r.requestState = .pending) (requests : s'.requests = s.requests.erase k)
      (paid : Refunded s s'.token r) : RequestEffect s s' k (.refunded k)
  | canceled {r : Request} (found : s.requests.lookup k = some r)
      (state : r.requestState = .pending)
      (requests : s'.requests = s.requests.insert k { r with requestState := .canceled })
      (paid : Refunded s s'.token r) : RequestEffect s s' k (.canceled k)
  | skipped {r : Request} (found : s.requests.lookup k = some r)
      (state : r.requestState = .canceled) (requests : s'.requests = s.requests.erase k)
      (unpaid : s'.token = s.token) : RequestEffect s s' k (.skipped k)
  | touched {r : Request} {operator : Pubkey} (found : s.requests.lookup k = some r)
      (requests : s'.requests = s.requests.insert k { r with operator := some operator })
      (unpaid : s'.token = s.token) : RequestEffect s s' k (.touched k)

/-- The event moves the request at `k` to another stage. -/
def Moves (k : Pubkey) : Event Pubkey → Prop
  | .opened k' | .approved k' | .claimed k' | .refunded k' | .canceled k' | .skipped k' => k' = k
  | _ => False

instance (k : Pubkey) (e : Event Pubkey) : Decidable (Moves k e) := by
  cases e <;> unfold Moves <;> infer_instance

/-- An instruction about one request leaves the others where they are. -/
theorem RequestEffect.elsewhere {s s' : VaultState} {k k' : Pubkey} {e : Event Pubkey} (hk : k ≠ k')
    (h : RequestEffect s s' k' e) :
    ¬Moves k e ∧ s'.requests.lookup k = s.requests.lookup k := by
  cases h with
  | opened _ _ _ requests | approved _ _ requests | canceled _ _ requests =>
    exact ⟨Ne.symm hk, by rw [requests, AList.lookup_insert_ne hk]⟩
  | touched _ requests => exact ⟨id, by rw [requests, AList.lookup_insert_ne hk]⟩
  | claimed _ _ requests | refunded _ _ requests | skipped _ _ requests =>
    exact ⟨Ne.symm hk, by rw [requests, AList.lookup_erase_ne hk]⟩

/-- The state stays well formed and the order book takes the step `e`. -/
structure Refines (s : VaultState) (e : Event Pubkey) (s' : VaultState) : Prop where
  wellFormed : s'.WellFormed
  step : Step s.book e s'.book
  key : s'.key = s.key

/-- The vault keeps its shares and the order book takes the step `e`, at some escrow balances;
valid terms stay valid, and under them it takes the step at its own. -/
structure Tracked (s : VaultState) (e : Event Pubkey) (s' : VaultState) : Prop where
  minting : s'.Minting
  key : s'.key = s.key
  valid : s.terms.Valid s.token → s'.terms.Valid s'.token
  shadow : ∃ esc esc', Step (s.bookAt esc) e (s'.bookAt esc')
  step : s.terms.Valid s.token → Step s.book e s'.book

theorem Tracked.refines {s s' : VaultState} {e : Event Pubkey} (h : Tracked s e s')
    (hw : s.WellFormed) : Refines s e s' :=
  ⟨h.minting.wellFormed (h.valid hw.terms), h.step hw.terms, h.key⟩

variable {s s₁ s' : VaultState} {k : Pubkey} {r : Request}
variable {context : RequestShareMintContext} {remaining : List AccountInfo}

theorem VaultState.key_of_terms (h : s'.terms = s.terms) : s'.key = s.key :=
  congrArg Terms.key h

theorem Terms.Valid.of_terms (hv : s.terms.Valid s.token) (ht : s'.terms = s.terms)
    (hg : Guarded s.key s.token s'.token) : s'.terms.Valid s'.token := by
  rw [ht]
  exact hv.guarded hg

/-- A step that is one of the order book whenever its escrows move as they may. -/
theorem Tracked.of_moved {e : Event Pubkey} (asset : Pubkey) (inn out : ℕ) (hm : s'.Minting)
    (ht : s'.terms = s.terms) (hg : Guarded s.key s.token s'.token)
    (hstep : ∀ esc esc', Moved esc esc' asset inn out →
      Step (s.bookAt esc) e (s'.bookAt esc'))
    (hesc : s.terms.Valid s.token → Moved s.book.escrow s'.book.escrow asset inn out) :
    Tracked s e s' where
  minting := hm
  key := VaultState.key_of_terms ht
  valid hv := hv.of_terms ht hg
  shadow :=
    let ⟨esc, esc', h⟩ := exists_moved asset inn out
    ⟨esc, esc', hstep esc esc' h⟩
  step hv := hstep _ _ (hesc hv)

/-- A step that takes nothing out of an escrow. -/
theorem Tracked.of_kept {e : Event Pubkey} (hm : s'.Minting) (ht : s'.terms = s.terms)
    (hg : Guarded s.key s.token s'.token)
    (hstep : ∀ esc esc', esc ≤ esc' → Step (s.bookAt esc) e (s'.bookAt esc'))
    (hesc : s.terms.Valid s.token → s.book.escrow ≤ s'.book.escrow) : Tracked s e s' :=
  .of_moved s.key 0 0 hm ht hg (fun _ _ h => hstep _ _ h.escrow_le) fun hv => .of_le (hesc hv) _

/-- A step that leaves the escrows as they are. -/
theorem Tracked.of_still {e : Event Pubkey} (hm : s'.Minting) (ht : s'.terms = s.terms)
    (hg : Guarded s.key s.token s'.token)
    (hstep : ∀ esc, Step (s.bookAt esc) e (s'.bookAt esc))
    (hesc : s'.book.escrow = s.book.escrow) : Tracked s e s' where
  minting := hm
  key := VaultState.key_of_terms ht
  valid hv := hv.of_terms ht hg
  shadow := ⟨s.book.escrow, s.book.escrow, hstep _⟩
  step _ := by
    have hown : Step s.book e (s'.bookAt s.book.escrow) := hstep s.book.escrow
    rwa [← hesc] at hown

/-! ### Opening -/

theorem createDepositRequest_ok (hm : s.Minting) {ctx : CreateDepositRequest}
    {args : RequestArgs} (h : createDepositRequest s ctx args remaining = .ok s') :
    RequestEffect s s' ctx.request (.opened ctx.request) ∧
      Tracked s (.opened ctx.request) s' := by
  obtain ⟨context, token, s₁, s₂, s₃, id, hacc, ⟨htoken, h₁, h₂, h₃, rfl⟩⟩ :=
    createDepositRequest_iff.1 h
  have huser := hacc.signer
  have hfree := hacc.fresh
  obtain ⟨y, hy, -, hfee⟩ := hacc.assetMint
  obtain ⟨hshare, -⟩ := validateRequestShareMint_ok hm.coherent hacc.validated
  obtain ⟨hescrow, hnames⟩ := checkPendingVault_ok hm.coherent hacc.pendingVault
  have htr := transferChecked_ok htoken
  -- the user's account is not the vault's, so the escrow receives every token
  have hne : ctx.userTokenAccount ≠ ctx.pendingVault :=
    htr.src_holds.ne_of_owner hacc.escrow huser
  have hbal : token.balance ctx.pendingVault = s.token.balance ctx.pendingVault + args.amount := by
    obtain ⟨y', hy', -, hb⟩ := htr.balance_dst hne
    obtain rfl : y = y' := Option.some.inj (hy.symm.trans hy')
    rw [hb, Mint.transferFee_eq_zero hfee, Nat.sub_zero]
  set r := ctx.opened s args context id with hr
  have hok : s.RequestOk r := ⟨rfl, huser, hshare⟩
  have hinc := incrementPendingRequests_ok h₁
  have hadd := addPendingDeposit_ok h₂ (hnames.of_terms hinc.terms)
  have hadj := (hinc.trans hadd).trans (nextRequestId_ok h₃).adjusted
  have hreq : s₃.requests = s.requests := hadj.requests
  show RequestEffect s (s₃.put token (s₃.requests.insert ctx.request r)) _ _ ∧
    Tracked s _ (s₃.put token (s₃.requests.insert ctx.request r))
  rw [hreq]
  have ht : (s₃.put token (s.requests.insert ctx.request r)).terms = s.terms := hadj.terms
  have hg := htr.shape.guarded s.key
  refine ⟨.opened hfree rfl hok rfl ⟨_, _, _, hescrow, htr, hbal⟩,
    .of_moved ctx.assetMint args.amount 0 (hm.of_insert ht hg (.inl hacc.running.1) hok rfl) ht hg
      (fun esc esc' hesc => ?_) fun hv => ?_⟩
  · rw [hadj.bookAt_put, VaultState.supply_eq ht fun m _ => htr.spent.supply m,
      VaultState.unit_eq hm ht hg, mapVal_insert, hadd.book, hinc.book]
    exact Step.openDeposit (B := s.bookAt esc) (VaultState.lookup_book_none hfree) rfl rfl hesc
  · exact VaultState.escrow_received hv ht hescrow
      (fun m' hm' => (hv.holds_pendingVaultOf hm').ne_of_owner htr.src_holds (Ne.symm huser) rfl)
      (.refl _ _ 0) htr hy hfee

theorem createRedeemRequest_ok (hm : s.Minting) {ctx : CreateRedeemRequest}
    {args : RequestArgs} (h : createRedeemRequest s ctx args remaining = .ok s') :
    RequestEffect s s' ctx.request (.opened ctx.request) ∧
      Tracked s (.opened ctx.request) s' := by
  obtain ⟨context, token, s₁, s₂, id, hacc, ⟨htoken, h₁, h₂, rfl⟩⟩ := createRedeemRequest_iff.1 h
  have huser := hacc.signer
  have hfree := hacc.fresh
  obtain ⟨hshare, -⟩ := validateRequestShareMint_ok hm.coherent hacc.validated
  have hburn := burn_ok htoken
  set r := ctx.opened s args context id with hr
  have hok : s.RequestOk r := ⟨rfl, huser, hshare⟩
  have hinc := incrementPendingRequests_ok h₁
  have hadj := hinc.trans (nextRequestId_ok h₂).adjusted
  have hreq : s₂.requests = s.requests := hadj.requests
  show RequestEffect s (s₂.put token (s₂.requests.insert ctx.request r)) _ _ ∧
    Tracked s _ (s₂.put token (s₂.requests.insert ctx.request r))
  rw [hreq]
  have ht : (s₂.put token (s.requests.insert ctx.request r)).terms = s.terms := hadj.terms
  have hg := hburn.shape.guarded s.key
  obtain ⟨hsupply, hlive⟩ := VaultState.supply_sub ht hshare hburn.supply hburn.supply_of_ne
  refine ⟨.opened hfree rfl hok rfl ⟨_, hburn⟩,
    .of_kept (hm.of_insert ht hg (.inl hacc.running.1) hok rfl) ht hg (fun esc esc' hesc => ?_)
      fun hv => VaultState.escrow_mono ht fun m a ha => ?_⟩
  · rw [hadj.bookAt_put, hsupply, VaultState.unit_eq hm ht hg, mapVal_insert, hinc.book]
    exact Step.openRedeem (B := s.bookAt esc) (VaultState.lookup_book_none hfree) rfl rfl hlive hesc
  · have hne := (hv.holds_pendingVaultOf ha).ne_of_owner hburn.src_holds (Ne.symm huser)
    exact (hburn.balance_of_ne a hne).ge

/-! ### Claiming -/

/-- A vault-signed payment out of an escrow. -/
theorem AssetsPaid.spent {token : Ledger Pubkey} (h : AssetsPaid s token r) :
    ∃ src, s.terms.pendingVaultOf r.assetMintAddress = some src ∧
      Spent s.token token src r.amount := by
  obtain ⟨_, src, _, hsrc, -, -, htr⟩ := h
  exact ⟨src, hsrc, htr.spent⟩

theorem claim_ok (hm : s.Minting) {ctx : Claim} (h : claim s ctx remaining = .ok s') :
    RequestEffect s s' ctx.request (.claimed ctx.request) ∧
      Tracked s (.claimed ctx.request) s' := by
  obtain ⟨r, p, token, hc, hpay, rfl⟩ := claim_iff.1 h
  have hr := hc.found
  have hstate := hc.claimable
  have hok := hm.requests _ r hr
  have hstage : r.order.stage = .claimable := by simp [Request.order, hstate, RequestState.stage]
  have ht : (s.put token (s.requests.erase ctx.request)).terms = s.terms := rfl
  -- closing the request leaves the shape of the tokens
  have hg := (shape_of_pay hpay).guarded s.key
  have hm' : (s.put token (s.requests.erase ctx.request)).Minting :=
    hm.of_terms ht hg (fun _ _ => VaultState.lookup_of_erase)
      (fun he => absurd he (VaultState.requests_ne_empty hr))
  cases htype : r.requestType with
  | deposit =>
    obtain ⟨program, dst, rfl, hholds⟩ := hc.deposit htype
    have hmint := mintTo_ok hpay
    have hside : r.order.side = .deposit := by simp [Request.order, htype, RequestType.side]
    -- shares are minted to the owner
    have hpaid : Settled s token r := by
      unfold Settled
      rw [htype]
      exact ⟨dst, hholds, hmint⟩
    refine ⟨.claimed hr hstate rfl hpaid, .of_kept hm' ht hg (fun esc esc' hesc => ?_)
      fun _ => VaultState.escrow_mono ht fun _ a _ => hmint.balance_le a⟩
    rw [(Adjusted.refl s).bookAt_put, VaultState.supply_add ht hok.shareMint hmint.issued,
      VaultState.unit_eq hm ht hg, mapVal_erase]
    exact Step.claimDeposit (B := s.bookAt esc) (VaultState.lookup_book hr) hside hstage hesc
  | redeem =>
    obtain ⟨program, src, dst, rfl, hcheck, hholds⟩ := hc.redeem htype
    obtain ⟨hescrow, -⟩ := checkPendingVault_ok hm.coherent hcheck
    have htr := transferChecked_ok hpay
    have hside : r.order.side = .redeem := by simp [Request.order, htype, RequestType.side]
    have hpaid : Settled s token r := by
      unfold Settled
      rw [htype]
      exact ⟨_, src, dst, hescrow, hholds, htr.src_holds.ne_of_owner hholds (Ne.symm hok.owner),
        htr⟩
    refine ⟨.claimed hr hstate rfl hpaid, .of_moved _ _ _ hm' ht hg (fun esc esc' hesc => ?_)
      fun hv => VaultState.escrow_spent hv ht hescrow htr.spent⟩
    -- the escrow pays what it owes, which the book takes as the step of this name
    rw [(Adjusted.refl s).bookAt_put, VaultState.supply_eq ht fun m _ => htr.spent.supply m,
      VaultState.unit_eq hm ht hg, mapVal_erase]
    exact Step.claimRedeem (B := s.bookAt esc) (VaultState.lookup_book hr) hside hstage hesc

/-! ### Refunds -/

/-- **Specification of a refund.** Exactly what the request took goes back to its
owner; whether the request account is then closed or kept as canceled, the order
book takes the step of that name. -/
theorem refund_ok (hm : s.Minting) {ctx : RefundAccounts}
    (hr : s.requests.lookup k = some r) (hstate : r.requestState = .pending)
    (hasset : r.assetMintAddress = ctx.assetMint) (hshare : r.shareMintAddress = ctx.shareMint)
    (h : refund s ctx r = .ok s') :
    Refunded s s'.token r ∧ s'.terms = s.terms ∧ s'.requests = s.requests ∧
      Guarded s.key s.token s'.token ∧
      ∀ e requests, Withdrawn s.book.orders k r.order e (mapVal Request.order requests) →
        (s'.put s'.token requests).Minting → Tracked s e (s'.put s'.token requests) := by
  have hok := hm.requests _ r hr
  have hstage : r.order.stage = .pending := by simp [Request.order, hstate, RequestState.stage]
  cases ht : r.requestType with
  | deposit =>
    have hside : r.order.side = .deposit := by simp [Request.order, ht, RequestType.side]
    obtain ⟨src, dst, program, token, s₁, h⟩ := (refund_deposit_iff ht).1 h
    obtain ⟨hescrow, hnames⟩ := checkPendingVault_ok hm.coherent h.named
    have htr := transferChecked_ok h.paid
    have hholds := h.holds
    have hsub := subPendingDeposit_ok h.released hnames
    have hdec := decrementPendingRequests_ok h.counted
    -- what the accounts say is what the request says
    rw [← hasset] at htr hholds hescrow hsub
    have htok : s'.token = token := hdec.token
    have hterms : s'.terms = s.terms := hdec.terms.trans hsub.terms
    rw [htok]
    have hg := htr.shape.guarded s.key
    refine ⟨?_, hterms, hdec.requests.trans hsub.requests, hg, fun e requests hwd hm' => ?_⟩
    · unfold Refunded
      rw [ht]
      exact ⟨_, src, dst, hescrow, hholds, htr.src_holds.ne_of_owner hholds (Ne.symm hok.owner),
        htr⟩
    -- the book takes the order out and the escrow pays for it
    · have hput : (s'.put token requests).terms = s.terms := hterms
      refine .of_moved _ _ _ hm' hput hg (fun esc esc' hesc => ?_)
        fun hv => VaultState.escrow_spent hv hput hescrow htr.spent
      rw [hdec.bookAt_put, hsub.book_put token s₁.requests,
        VaultState.supply_eq hput fun m _ => htr.spent.supply m, VaultState.unit_eq hm hput hg]
      exact Step.refundDeposit (B := s.bookAt esc) (VaultState.lookup_book hr) hside hstage hesc hwd
  | redeem =>
    have hside : r.order.side = .redeem := by simp [Request.order, ht, RequestType.side]
    obtain ⟨dst, program, token, h⟩ := (refund_redeem_iff ht).1 h
    -- the shares that were burned are minted again
    have hmint := mintTo_ok h.minted
    have hholds := h.holds
    have hdec := decrementPendingRequests_ok h.counted
    rw [← hshare] at hmint hholds
    have htok : s'.token = token := hdec.token
    have hterms : s'.terms = s.terms := hdec.terms
    rw [htok]
    have hg := hmint.shape.guarded s.key
    refine ⟨?_, hterms, hdec.requests, hg, fun e requests hwd hm' => ?_⟩
    · unfold Refunded
      rw [ht]
      exact ⟨dst, hholds, hmint⟩
    · have hput : (s'.put token requests).terms = s.terms := hterms
      refine .of_kept hm' hput hg (fun esc esc' hesc => ?_)
        fun _ => VaultState.escrow_mono hput fun _ a _ => hmint.balance_le a
      rw [hdec.bookAt_put, (Adjusted.refl s).book_put token s.requests,
        VaultState.supply_add hput hok.shareMint hmint.issued, VaultState.unit_eq hm hput hg]
      exact Step.refundRedeem (B := s.bookAt esc) (VaultState.lookup_book hr) hside hstage hesc hwd

/-- A refund that closes the request account. -/
theorem refund_close (hm : s.Minting) {ctx : RefundAccounts}
    (hr : s.requests.lookup k = some r) (hstate : r.requestState = .pending)
    (hasset : r.assetMintAddress = ctx.assetMint) (hshare : r.shareMintAddress = ctx.shareMint)
    (h : refund s ctx r = .ok s') :
    RequestEffect s (s'.put s'.token (s'.requests.erase k)) k (.refunded k) ∧
      Tracked s (.refunded k) (s'.put s'.token (s'.requests.erase k)) := by
  obtain ⟨hpaid, hterms, hreq, hg, htracked⟩ := refund_ok hm hr hstate hasset hshare h
  rw [hreq]
  refine ⟨.refunded hr hstate rfl hpaid, htracked _ _ ?_ ?_⟩
  · rw [mapVal_erase]
    exact .refunded
  · exact hm.of_terms hterms hg (fun _ _ => VaultState.lookup_of_erase)
      (fun he => absurd he (VaultState.requests_ne_empty hr))

/-- A refund that keeps the request account as canceled. -/
theorem refund_keep (hm : s.Minting) {ctx : RefundAccounts}
    (hr : s.requests.lookup k = some r) (hstate : r.requestState = .pending)
    (hasset : r.assetMintAddress = ctx.assetMint) (hshare : r.shareMintAddress = ctx.shareMint)
    (h : refund s ctx r = .ok s') :
    RequestEffect s (s'.put s'.token (s'.requests.insert k { r with requestState := .canceled })) k
        (.canceled k) ∧
      Tracked s (.canceled k)
        (s'.put s'.token (s'.requests.insert k { r with requestState := .canceled })) := by
  obtain ⟨hpaid, hterms, hreq, hg, htracked⟩ := refund_ok hm hr hstate hasset hshare h
  have hok := hm.requests k r hr
  rw [hreq]
  refine ⟨.canceled hr hstate rfl hpaid, htracked _ _ ?_ ?_⟩
  · rw [mapVal_insert]
    exact .canceled
  · exact hm.of_insert hterms hg (.inr (VaultState.requests_ne_empty hr))
      (r := { r with requestState := .canceled }) ⟨hok.vault, hok.owner, hok.shareMint⟩ rfl

theorem checkRequestMints_ok {assetMint shareMint : Pubkey}
    (h : checkRequestMints s assetMint shareMint r remaining = .ok context) :
    r.assetMintAddress = assetMint ∧ r.shareMintAddress = shareMint := by
  simp only [checkRequestMints, bind_eq_ok, ensure_eq_ok] at h
  obtain ⟨-, -, -, -, -, hasset, -, hshare, -⟩ := h
  exact ⟨hasset, hshare⟩

theorem cancelRequest_ok (hm : s.Minting) {user : Pubkey} {ctx : RefundAccounts}
    (h : cancelRequest s user ctx remaining = .ok s') :
    RequestEffect s s' ctx.request (.refunded ctx.request) ∧
      Tracked s (.refunded ctx.request) s' := by
  obtain ⟨r, context, s₁, hc⟩ := cancelRequest_iff.1 h
  obtain rfl := hc.state
  obtain ⟨hasset, hshare⟩ := checkRequestMints_ok hc.mints
  exact refund_close hm hc.found hc.pending hasset hshare hc.refunded

/-- Queue counters are no part of what a refund is about. -/
theorem Refunded.of_adjusted {token : Ledger Pubkey} (hq : Adjusted s s₁ s.book)
    (h : Refunded s₁ token r) : Refunded s token r := by
  unfold Refunded SharesPaid AssetsPaid at h ⊢
  rwa [hq.terms, hq.token, VaultState.key_of_terms hq.terms] at h

theorem VaultState.Minting.adjusted {b : Book Pubkey} (hm : s.Minting)
    (hq : Adjusted s s' b) : s'.Minting :=
  hm.of_terms hq.terms (by rw [hq.token]; exact .refl _ _)
    (fun k r => by rw [hq.requests]; exact id)
    (fun he => by rw [hq.requests, he])

/-- Queue counters are no part of a step. -/
theorem Tracked.of_adjusted {e : Event Pubkey} (hq : Adjusted s s₁ s.book) (h : Tracked s₁ e s') :
    Tracked s e s' where
  minting := h.minting
  key := h.key.trans (VaultState.key_of_terms hq.terms)
  valid hv := h.valid (by rwa [hq.terms, hq.token])
  shadow := by
    have hshadow := h.shadow
    simp only [VaultState.bookAt, hq.book] at hshadow
    exact hshadow
  step hv := by
    rw [← hq.book]
    exact h.step (by rwa [hq.terms, hq.token])

theorem rejectRequest_ok (hm : s.Minting) {authority user : Pubkey} {ctx : RefundAccounts}
    {args : ApproveRequestArgs}
    (h : rejectRequest s authority user ctx args remaining = .ok s') :
    RequestEffect s s' ctx.request (.refunded ctx.request) ∧
      Tracked s (.refunded ctx.request) s' := by
  obtain ⟨r, context, s₁, s₂, hc⟩ := rejectRequest_iff.1 h
  obtain rfl := hc.state
  obtain ⟨hasset, hshare⟩ := checkRequestMints_ok hc.mints
  have hq := (advanceQueue_ok hc.queue).adjusted
  have hr₁ : s₁.requests.lookup ctx.request = some r := by rw [hq.requests, hc.found]
  obtain ⟨heffect, htracked⟩ :=
    refund_close (hm.adjusted hq) hr₁ hc.pending hasset hshare hc.refunded
  refine ⟨?_, htracked.of_adjusted hq⟩
  cases heffect with
  | refunded found state requests paid =>
    rw [hq.requests] at found requests
    exact .refunded found state requests (paid.of_adjusted hq)

theorem cancelQueuedDepositRequest_ok (hm : s.Minting) {ctx : CancelQueuedDepositRequest}
    (h : cancelQueuedDepositRequest s ctx remaining = .ok s') :
    RequestEffect s s' ctx.request (.canceled ctx.request) ∧
      Tracked s (.canceled ctx.request) s' := by
  obtain ⟨r, context, s₁, hc⟩ := cancelQueuedDepositRequest_iff.1 h
  obtain rfl := hc.state
  obtain ⟨hasset, hshare⟩ := checkRequestMints_ok hc.mints
  exact refund_keep hm hc.found hc.pending hasset hshare hc.refunded

theorem cancelQueuedRedemptionRequest_ok (hm : s.Minting) {ctx : CancelQueuedRedemptionRequest}
    (h : cancelQueuedRedemptionRequest s ctx remaining = .ok s') :
    RequestEffect s s' ctx.request (.canceled ctx.request) ∧
      Tracked s (.canceled ctx.request) s' := by
  obtain ⟨-, r, context, s₁, hc⟩ := cancelQueuedRedemptionRequest_iff.1 h
  obtain rfl := hc.state
  obtain ⟨hasset, hshare⟩ := checkRequestMints_ok hc.mints
  exact refund_keep hm hc.found hc.pending hasset hshare hc.refunded

/-! ### Skipping and naming an operator -/

theorem skipCanceledQueueRequest_ok (hm : s.Minting) {request owner : Pubkey}
    (h : skipCanceledQueueRequest s request owner remaining = .ok s') :
    RequestEffect s s' request (.skipped request) ∧ Tracked s (.skipped request) s' := by
  obtain ⟨r, context, s₁, hc⟩ := skipCanceledQueueRequest_iff.1 h
  have hr := hc.found
  have hstate := hc.canceled
  obtain rfl := hc.state
  have hq := (advanceQueue_ok hc.queue).adjusted
  show RequestEffect s (s₁.put s₁.token (s₁.requests.erase request)) _ _ ∧
    Tracked s _ (s₁.put s₁.token (s₁.requests.erase request))
  rw [hq.requests, hq.token]
  have hterms : (s₁.put s.token (s.requests.erase request)).terms = s.terms := hq.terms
  have hstage : r.order.stage = .canceled := by simp [Request.order, hstate, RequestState.stage]
  have hstep : ∀ esc,
      Step (s.bookAt esc) (.skipped request)
        ((s₁.put s.token (s.requests.erase request)).bookAt esc) := by
    intro esc
    rw [hq.bookAt_put, VaultState.supply_eq hterms fun _ _ => rfl,
      VaultState.unit_eq hm hterms (.refl _ _), mapVal_erase]
    exact Step.skip (B := s.bookAt esc) (VaultState.lookup_book hr) hstage
  refine ⟨.skipped hr hstate rfl rfl, .of_still ?_ hterms (.refl _ _) hstep ?_⟩
  · exact hm.of_terms hterms (.refl _ _) (fun _ _ => VaultState.lookup_of_erase)
      (fun he => absurd he (VaultState.requests_ne_empty hr))
  · simp only [VaultState.book, hterms]
    rfl

theorem setOperator_ok (hm : s.Minting) {user operator request : Pubkey}
    (h : setOperator s user operator request = .ok s') :
    RequestEffect s s' request (.touched request) ∧ Tracked s (.touched request) s' := by
  obtain ⟨-, -, r, hr, -, rfl⟩ := setOperator_iff.1 h
  have hok := hm.requests _ r hr
  refine ⟨.touched hr rfl rfl, .of_still ?_ rfl (.refl _ _) (fun esc => ?_) rfl⟩
  · exact hm.of_insert rfl (.refl _ _) (.inr (VaultState.requests_ne_empty hr))
      (r := { r with operator := some operator }) ⟨hok.vault, hok.owner, hok.shareMint⟩ rfl
  · have hb : (s.put s.token
          (s.requests.insert request { r with operator := some operator })).bookAt esc =
        { s.bookAt esc with orders := s.book.orders.insert request r.order } :=
      Book.ext (mapVal_insert _ _ _ _) rfl rfl rfl rfl rfl rfl rfl rfl rfl rfl rfl
    rw [hb]
    exact Step.touch (B := s.bookAt esc) (VaultState.lookup_book hr)

end AsyncVault
