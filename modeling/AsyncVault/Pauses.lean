/-
AsyncVault/Pauses.lean

What the pause switches stop.

Paused subscriptions should keep new assets out and paused redemptions should
keep shares from being given up, whatever the way in.  The vault says what came
in: the assets it has booked against shares are those it has settled and those
it reserves for pending deposits (`received`), and an instruction takes assets
when that grows.  The request instructions keep to this, and do not look at the
switches otherwise (`execRequest_commutes`).  The two instant instructions never
look at them, and are what gets past (`pauses_hold_iff`).
-/
import AsyncVault.FreshNav
import AsyncVault.ManagedScenario

namespace AsyncVault

open Checked TokenLedger KeyedStore Function Machine

variable {s s' : VaultState} {d d' : Docket} {k m : Pubkey} {r : Request}
variable {remaining : List AccountInfo} {i : RequestInstruction}

/-! ### The switches are not looked at -/

/-- The extensions with the pause switches set to `p` and `q`. -/
def VaultExtensions.withPauses (p q : Option Bool) (ext : VaultExtensions) : VaultExtensions :=
  { ext with pausableSubscriptions := p, pausableRedemptions := q }

def VaultState.withPauses (p q : Option Bool) (s : VaultState) : VaultState :=
  { s with extensions := s.extensions.withPauses p q }

def Settlement.withPauses (p q : Option Bool) (x : Settlement) : Settlement :=
  { x with state := x.state.withPauses p q }

variable {p q : Option Bool}

theorem decrementPendingRequests_commutes :
    Commutes (VaultState.withPauses p q) (VaultState.withPauses p q) decrementPendingRequests :=
  .after (fun _ => rfl) fun _ => .pure fun _ => rfl

theorem subPendingDeposit_commutes (m : Pubkey) (vaultAsset : Option Pubkey) (n : ℕ) :
    Commutes (VaultState.withPauses p q) (VaultState.withPauses p q)
      (subPendingDeposit · m vaultAsset n) := by
  refine .ite (fun _ => .rfl) ?_ ?_
  · exact .after (fun _ => rfl) fun _ => .pure fun _ => rfl
  · exact .after (fun _ => rfl) fun _ => .after (fun _ => rfl) fun _ => .after (fun _ => rfl)
      fun _ => .pure fun _ => rfl

/-- What a pending request took goes back whatever the switches. -/
theorem refund_commutes (ctx : RefundAccounts) (r : Request) :
    Commutes (VaultState.withPauses p q) (VaultState.withPauses p q) (refund · ctx r) := by
  unfold refund
  cases r.requestType with
  | deposit =>
    -- seven accounts and the transfer, then the counters
    iterate 7 refine .after (fun _ => rfl) fun _ => ?_
    refine .bind (subPendingDeposit_commutes _ _ _) ?_
    exact decrementPendingRequests_commutes.comp fun _ => rfl
  | redeem =>
    iterate 4 refine .after (fun _ => rfl) fun _ => ?_
    exact decrementPendingRequests_commutes.comp fun _ => rfl

/-- The queues are no switches. -/
theorem queue_withPauses (ext : VaultExtensions) (t : RequestType) :
    (ext.withPauses p q).queue t = ext.queue t := by
  cases t <;> rfl

theorem setQueue_withPauses (ext : VaultExtensions) (t : RequestType) (fifo : FifoQueue) :
    (ext.withPauses p q).setQueue t fifo = (ext.setQueue t fifo).withPauses p q := by
  cases t <;> rfl

theorem checkAndAdvanceQueue_commutes (t : RequestType) (r : Request) :
    Commutes (VaultExtensions.withPauses p q) (VaultExtensions.withPauses p q)
      (VaultExtensions.checkAndAdvanceQueue · t r) := by
  intro ext
  simp only [VaultExtensions.checkAndAdvanceQueue, queue_withPauses]
  cases ext.queue t with
  | none => rfl
  | some fifo =>
    cases r.queueId t with
    | none => rfl
    | some id =>
      show fifo.advance t id >>= _ = Except.map _ (fifo.advance t id >>= _)
      cases fifo.advance t id with
      | error e => rfl
      | ok fifo' => exact congrArg Except.ok (setQueue_withPauses ext t fifo')

theorem advanceQueue_commutes (context : RequestShareMintContext) (m : Pubkey) (r : Request)
    (remaining : List AccountInfo) :
    Commutes (VaultState.withPauses p q) (VaultState.withPauses p q)
      (advanceQueue · context m r remaining) := by
  unfold advanceQueue
  split
  · refine .ite (fun s => ?_) ?_ (.pure fun _ => rfl)
    · show (VaultExtensions.hasFifoQueue (s.extensions.withPauses p q) r.requestType) = true ↔ _
      rw [VaultExtensions.hasFifoQueue, queue_withPauses]
      rfl
    · iterate 3 refine .after (fun _ => rfl) fun _ => ?_
      exact .pure fun _ => rfl
  · intro s
    have hqueue : (s.withPauses p q).extensions.checkAndAdvanceQueue r.requestType r =
        (s.extensions.checkAndAdvanceQueue r.requestType r).map (·.withPauses p q) :=
      checkAndAdvanceQueue_commutes r.requestType r s.extensions
    simp only [hqueue]
    cases s.extensions.checkAndAdvanceQueue r.requestType r <;> rfl

theorem updateTrancheSupplyCache_commutes (m : Pubkey) (t : RequestType) (delta live : ℕ)
    (info : Option TrancheRequestInfo) (account : Option AccountInfo) :
    Commutes (VaultState.withPauses p q) (VaultState.withPauses p q)
      (updateTrancheSupplyCache · m t delta live info account) := by
  cases info with
  | none => exact .pure fun _ => rfl
  | some info =>
    refine .after (fun _ => rfl) fun tc => ?_
    split
    · exact .after (fun _ => rfl) fun _ => .pure fun _ => rfl
    · split
      · exact .after (fun _ => rfl) fun _ => .pure fun _ => rfl
      · exact .pure fun _ => rfl

theorem settleDeposit_commutes (ctx : ApproveRequest) (context : RequestShareMintContext)
    (r : Request) (nav : ℕ) (share : Mint Pubkey) (remaining : List AccountInfo) :
    Commutes (VaultState.withPauses p q) (Settlement.withPauses p q)
      (settleDeposit · ctx context r nav share remaining) := by
  unfold settleDeposit
  refine .after (fun _ => rfl) fun parts => ?_
  iterate 4 refine .after (fun _ => rfl) fun _ => ?_
  refine .bind (updateTrancheSupplyCache_commutes _ _ _ _ _ _) ?_
  iterate 2 refine .after (fun _ => rfl) fun _ => ?_
  exact .pure fun _ => rfl

theorem settleRedeem_commutes (ctx : ApproveRequest) (context : RequestShareMintContext)
    (r : Request) (nav : ℕ) (share : Mint Pubkey) (remaining : List AccountInfo) :
    Commutes (VaultState.withPauses p q) (Settlement.withPauses p q)
      (settleRedeem · ctx context r nav share remaining) := by
  unfold settleRedeem
  iterate 2 refine .after (fun _ => rfl) fun _ => ?_
  refine .bind (updateTrancheSupplyCache_commutes _ _ _ _ _ _) ?_
  iterate 4 refine .after (fun _ => rfl) fun _ => ?_
  exact .pure fun _ => rfl

theorem approveRequest_commutes (ctx : ApproveRequest) (args : ApproveRequestArgs)
    (remaining : List AccountInfo) :
    Commutes (VaultState.withPauses p q) (VaultState.withPauses p q)
      (approveRequest · ctx args remaining) := by
  unfold approveRequest
  refine .after (fun _ => rfl) ?_
  rintro ⟨r, share, context⟩
  iterate 3 refine .after (fun _ => rfl) fun _ => ?_
  intro s
  -- the NAV is read before the queue moves
  have hnav : (s.withPauses p q).vault.nav = s.vault.nav := rfl
  simp only [hnav]
  refine Commutes.bind (advanceQueue_commutes _ _ _ _)
    (.bind (v := Settlement.withPauses p q) ?_ ?_) s
  · cases r.requestType with
    | deposit => exact settleDeposit_commutes _ _ _ _ _ _
    | redeem => exact settleRedeem_commutes _ _ _ _ _ _
  · refine .after (fun x => ?_) fun v => decrementPendingRequests_commutes.comp fun _ => rfl
    cases r.requestType <;> rfl

theorem rejectRequest_commutes (authority user : Pubkey) (ctx : RefundAccounts)
    (args : ApproveRequestArgs) (remaining : List AccountInfo) :
    Commutes (VaultState.withPauses p q) (VaultState.withPauses p q)
      (rejectRequest · authority user ctx args remaining) := by
  unfold rejectRequest
  iterate 7 refine .after (fun _ => rfl) fun _ => ?_
  exact .bind (advanceQueue_commutes _ _ _ _) (.bind (refund_commutes _ _) (.pure fun _ => rfl))

theorem cancelRequest_commutes (user : Pubkey) (ctx : RefundAccounts)
    (remaining : List AccountInfo) :
    Commutes (VaultState.withPauses p q) (VaultState.withPauses p q)
      (cancelRequest · user ctx remaining) := by
  unfold cancelRequest
  iterate 7 refine .after (fun _ => rfl) fun _ => ?_
  exact .bind (refund_commutes _ _) (.pure fun _ => rfl)

theorem cancelQueuedDepositRequest_commutes (ctx : CancelQueuedDepositRequest)
    (remaining : List AccountInfo) :
    Commutes (VaultState.withPauses p q) (VaultState.withPauses p q)
      (cancelQueuedDepositRequest · ctx remaining) := by
  unfold cancelQueuedDepositRequest
  iterate 8 refine .after (fun _ => rfl) fun _ => ?_
  exact .bind (refund_commutes _ _) (.pure fun _ => rfl)

theorem cancelQueuedRedemptionRequest_commutes (ctx : CancelQueuedRedemptionRequest)
    (remaining : List AccountInfo) :
    Commutes (VaultState.withPauses p q) (VaultState.withPauses p q)
      (cancelQueuedRedemptionRequest · ctx remaining) := by
  unfold cancelQueuedRedemptionRequest
  iterate 9 refine .after (fun _ => rfl) fun _ => ?_
  exact .bind (refund_commutes _ _) (.pure fun _ => rfl)

theorem skipCanceledQueueRequest_commutes (k owner : Pubkey) (remaining : List AccountInfo) :
    Commutes (VaultState.withPauses p q) (VaultState.withPauses p q)
      (skipCanceledQueueRequest · k owner remaining) := by
  unfold skipCanceledQueueRequest
  iterate 4 refine .after (fun _ => rfl) fun _ => ?_
  exact .bind (advanceQueue_commutes _ _ _ _) (.pure fun _ => rfl)

theorem claim_commutes (ctx : Claim) (remaining : List AccountInfo) :
    Commutes (VaultState.withPauses p q) (VaultState.withPauses p q)
      (claim · ctx remaining) := by
  unfold claim
  iterate 3 refine .after (fun _ => rfl) fun _ => ?_
  refine .after (fun _ => rfl) fun r => ?_
  iterate 7 refine .after (fun _ => rfl) fun _ => ?_
  cases r.requestType with
  | deposit =>
    iterate 4 refine .after (fun _ => rfl) fun _ => ?_
    exact .pure fun _ => rfl
  | redeem =>
    iterate 6 refine .after (fun _ => rfl) fun _ => ?_
    exact .pure fun _ => rfl

theorem setOperator_commutes (user operator k : Pubkey) :
    Commutes (VaultState.withPauses p q) (VaultState.withPauses p q)
      (setOperator · user operator k) := by
  unfold setOperator
  iterate 4 refine .after (fun _ => rfl) fun _ => ?_
  exact .pure fun _ => rfl

/-- **Requests that exist go on.** Whatever is not the opening of a request fails or succeeds
whether or not subscriptions and redemptions are paused, and does the same. -/
theorem execRequest_commutes (hi : i.opens = none) (remaining : List AccountInfo) :
    Commutes (VaultState.withPauses p q) (VaultState.withPauses p q)
      (execRequest · i remaining) := by
  cases i with
  | createDepositRequest ctx args => cases hi
  | createRedeemRequest ctx args => cases hi
  | approveRequest ctx args => exact approveRequest_commutes ctx args remaining
  | rejectRequest authority user ctx args => exact rejectRequest_commutes _ _ _ _ _
  | cancelRequest user ctx => exact cancelRequest_commutes _ _ _
  | cancelQueuedDepositRequest ctx => exact cancelQueuedDepositRequest_commutes _ _
  | cancelQueuedRedemptionRequest ctx => exact cancelQueuedRedemptionRequest_commutes _ _
  | skipCanceledQueueRequest k owner => exact skipCanceledQueueRequest_commutes _ _ _
  | claim ctx => exact claim_commutes _ _
  | setOperator user operator k => exact setOperator_commutes _ _ _

/-! ### Taking assets, giving shares up -/

/-- What the vault has booked of asset `m` against shares: the settled assets, all of the primary
one, and what pending deposits of `m` reserve. -/
def VaultState.received (s : VaultState) (m : Pubkey) : ℕ :=
  (if s.vault.assetMint = m then s.vault.totalAssetBalance else 0) + s.reserved m

/-- Assets are taken for shares, present or future. -/
def TakesAssets (s s' : VaultState) : Prop := ∃ m, s.received m < s'.received m

/-- Shares are burned for assets: for some that are paid out, or for a request to be. -/
def BurnsShares (s s' : VaultState) : Prop :=
  (∃ m, s'.token.supply m < s.token.supply m) ∧
    (s'.vault.totalAssetBalance < s.vault.totalAssetBalance ∨
      ∃ k r, s.requests.lookup k = none ∧ s'.requests.lookup k = some r ∧ r.requestType = .redeem)

/-- What a docket shows as received. -/
def Docket.received (d : Docket) (m : Pubkey) : ℕ :=
  (if d.assetMint = m then d.totalAssetBalance else 0) + total (Request.reserves · m) d.requests

theorem Tallied.received (hs : Tallied s) (m : Pubkey) : s.received m = s.docket.received m := by
  rw [VaultState.received, hs.reserved]
  rfl

/-- A request that is pending no more releases what it reserved. -/
theorem total_released (m : Pubkey) (found : d.requests.lookup k = some r) {v : Request}
    (hv : v.requestState ≠ .pending) :
    total (Request.reserves · m) (d.requests.insert k v) + r.reserves m =
      total (Request.reserves · m) d.requests := by
  have hswap := total_insert_of_some (w := (Request.reserves · m)) (u := v) found
  rwa [Request.reserves_other hv, Nat.add_zero] at hswap

/-- **Only a deposit request brings assets in**, among the request instructions. -/
theorem DocketMove.received_le (h : DocketMove d i d') (hi : ∀ k, i.opens ≠ some (k, .deposit))
    (m : Pubkey) : d'.received m ≤ d.received m := by
  cases h with
  | @opened i k r lane opens fresh pending enqueued capped =>
    have ht : r.requestType = .redeem := by
      cases ht : r.requestType with
      | deposit => exact absurd (ht ▸ opens) (hi k)
      | redeem => rfl
    show _ + total (Request.reserves · m) (d.requests.insert k r) ≤ _
    rw [total_insert_of_none fresh, Request.reserves_redeem ht]
    exact le_rfl
  | @settled ctx args r lane amount price balance found pending primary dequeued reserved hle =>
    -- the settled assets were reserved for the request, all of them of the primary asset
    show (if d.assetMint = m then balance else 0) +
      total (Request.reserves · m) (d.requests.insert ctx.request _) ≤ _
    have hsum := total_released m found
      (v := { r with amount := amount, price := price, requestState := .claimable }) nofun
    have hr : d.reserves r = r.reserves d.assetMint := rfl
    unfold Docket.received
    by_cases hm : d.assetMint = m
    · subst hm
      rw [if_pos rfl, if_pos rfl]
      omega
    · rw [if_neg hm, if_neg hm]
      omega
  | @rejected authority user ctx args r lane found pending dequeued reserved =>
    exact Nat.add_le_add_left (Nat.le.intro (total_erase_of_some found)) _
  | @canceled user ctx r found pending unqueued reserved =>
    exact Nat.add_le_add_left (Nat.le.intro (total_erase_of_some found)) _
  | @parked i k r parks found pending queued reserved =>
    exact Nat.add_le_add_left (Nat.le.intro (total_released m found
      (v := { r with requestState := .canceled }) nofun)) _
  | @skipped k owner r lane found canceled dequeued =>
    exact Nat.add_le_add_left (Nat.le.intro (total_erase_of_some found)) _
  | @claimed ctx r found claimable =>
    exact Nat.add_le_add_left (Nat.le.intro (total_erase_of_some found)) _
  | @operated user operator k r found =>
    have hswap := total_insert_of_some (w := (Request.reserves · m))
      (u := { r with operator := some operator }) found
    exact Nat.add_le_add_left (Nat.add_right_cancel hswap).le _

/-- A request that was not there is the one the instruction opens. -/
theorem EntryMove.of_none {o : Option Request} (h : EntryMove i k none o) (ho : o = some r) :
    i.opens = some (k, r.requestType) := by
  cases h with
  | kept => cases ho
  | opened opens pending => exact Option.some.inj ho ▸ opens

/-- Only an approval moves the settled assets. -/
theorem DocketMove.balance (h : DocketMove d i d') :
    d'.totalAssetBalance = d.totalAssetBalance ∨ ∃ ctx args, i = .approveRequest ctx args := by
  cases h with
  | settled => exact .inr ⟨_, _, rfl⟩
  | _ => exact .inl rfl

/-- An approval transfers assets, and burns no shares. -/
theorem approveRequest_supply {ctx : ApproveRequest} {args : ApproveRequestArgs}
    (h : approveRequest s ctx args remaining = .ok s') (m : Pubkey) :
    s'.token.supply m = s.token.supply m := by
  obtain ⟨r, share, context, s₁, x, v, -, hsettles⟩ := approveRequest_iff.1 h
  have htoken : s'.token = x.state.token := (decrementPendingRequests_ok hsettles.state).token
  have hqueue : s₁.token = s.token := (advanceQueue_ok hsettles.queue).adjusted.token
  rw [htoken, ← hqueue]
  cases ht : r.requestType with
  | deposit =>
    obtain ⟨_, _, _, _, _, _, _, h, hx⟩ := settleDeposit_iff.1 (hsettles.deposit ht).1
    obtain ⟨tc, rfl, -⟩ := updateTrancheSupplyCache_terms h.cached
    rw [hx]
    exact ((transferChecked_ok h.paid).spent.supply m).trans
      ((paySettlementFee_ok h.feePaid).supply m)
  | redeem =>
    obtain ⟨_, _, _, _, _, _, _, _, h, hx⟩ := settleRedeem_iff.1 (hsettles.redeem ht).1
    obtain ⟨tc, rfl, -⟩ := updateTrancheSupplyCache_terms h.cached
    rw [hx]
    exact ((transferChecked_ok h.paid).spent.supply m).trans
      ((paySettlementFee_ok h.feePaid).supply m)

/-! ### The guards, and the two instructions without -/

theorem createDepositRequest_unpaused {ctx : CreateDepositRequest} {args : RequestArgs}
    (h : createDepositRequest s ctx args remaining = .ok s') :
    s.extensions.pausableSubscriptions ≠ some true := by
  obtain ⟨_, _, _, _, _, _, hacc, -⟩ := createDepositRequest_iff.1 h
  have hpaused := hacc.unpaused
  intro hp
  rw [VaultExtensions.checkSubscriptionsPaused, ensure_eq_ok, hp] at hpaused
  cases hpaused

theorem createRedeemRequest_unpaused {ctx : CreateRedeemRequest} {args : RequestArgs}
    (h : createRedeemRequest s ctx args remaining = .ok s') :
    s.extensions.pausableRedemptions ≠ some true := by
  obtain ⟨_, _, _, _, _, hacc, -⟩ := createRedeemRequest_iff.1 h
  have hpaused := hacc.unpaused
  intro hp
  rw [VaultExtensions.checkRedemptionsPaused, ensure_eq_ok, hp] at hpaused
  cases hpaused

/-- An instant deposit books the net deposit at once. -/
theorem instantDeposit_takes {ctx : InstantDeposit} {amount : ℕ}
    (h : instantDeposit s ctx amount remaining = .ok s') : TakesAssets s s' := by
  obtain ⟨_, _, _, _, _, net, _, _, _, _, hi⟩ := instantDeposit_iff.1 h
  obtain rfl := hi.state
  refine ⟨s.vault.assetMint, ?_⟩
  show (if _ then _ else _) + s.reserved _ < (if _ then _ else _) + s.reserved _
  rw [if_pos rfl, if_pos rfl]
  exact Nat.add_lt_add_right (Nat.lt_add_of_pos_right hi.net_pos) _

/-- An instant redemption burns the shares and pays the assets out. -/
theorem instantRedeem_burns {ctx : InstantRedeem} {shares : ℕ}
    (h : instantRedeem s ctx shares remaining = .ok s') : BurnsShares s s' := by
  obtain ⟨_, share, _, _, gross, _, _, v, token₁, token₂, token, hi⟩ := instantRedeem_iff.1 h
  have hle := hi.total
  obtain rfl := hi.state
  obtain ⟨start, used, rfl⟩ := Vault.consumeRedemptionRollingLimit_ok hi.limit
  obtain ⟨-, -, hpos, -, hworth⟩ := calculateAssets_eq_ok.1 hi.valued
  -- no shares would be worth no assets
  have hshares : 0 < shares := by
    refine Nat.pos_of_ne_zero fun h0 => ?_
    rw [h0, FixedPoint.worth_zero_shares] at hworth
    exact hpos.ne' hworth
  have hsupply : token.supply ctx.shareMint = token₁.supply ctx.shareMint :=
    ((transferChecked_ok hi.paid).spent.supply _).trans ((payInstantFee_ok hi.feePaid).supply _)
  have hburned := (burn_ok hi.burned).supply
  refine ⟨⟨ctx.shareMint, ?_⟩, .inl (Nat.sub_lt (hpos.trans_le hle) hpos)⟩
  show token.supply ctx.shareMint < s.token.supply ctx.shareMint
  omega

/-! ### What the switches stop -/

variable {t t' : ManagedState} {verify : MerkleCheck} {a : ManagedAction}

def ManagedAction.IsInstantDeposit (a : ManagedAction) : Prop :=
  ∃ ctx amount remaining, a = .core (.instantDeposit ctx amount remaining)

def ManagedAction.IsInstantRedeem (a : ManagedAction) : Prop :=
  ∃ ctx shares remaining, a = .core (.instantRedeem ctx shares remaining)

/-- What neither is a request instruction nor settles at once leaves requests and settled assets
alone. -/
structure SettlesNothing (d d' : Docket) : Prop where
  requests : d'.requests = d.requests
  assetMint : d'.assetMint = d.assetMint
  balance : d'.totalAssetBalance = d.totalAssetBalance

theorem SettlesNothing.of_eq (h : d' = d) : SettlesNothing d d' := by
  subst h
  exact ⟨rfl, rfl, rfl⟩

theorem SettlesNothing.received (h : SettlesNothing d d') (m : Pubkey) :
    d'.received m = d.received m := by
  rw [Docket.received, Docket.received, h.requests, h.assetMint, h.balance]

theorem SettlesNothing.not_takes (h : SettlesNothing t.core.docket t'.core.docket)
    (ht : Tallied t.core) (ht' : Tallied t'.core) : ¬TakesAssets t.core t'.core := by
  rintro ⟨m, hlt⟩
  rw [ht.received, ht'.received, h.received] at hlt
  exact hlt.ne rfl

theorem SettlesNothing.not_burns (h : SettlesNothing t.core.docket t'.core.docket) :
    ¬BurnsShares t.core t'.core := by
  rintro ⟨-, hlt | ⟨k, r, hnone, hsome, -⟩⟩
  · exact hlt.ne h.balance
  · rw [show t'.core.requests = t.core.requests from h.requests, hnone] at hsome
    cases hsome

theorem Configured.settlesNothing {i : ConfigInstruction} (h : Configured s i s') :
    SettlesNothing s.docket s'.docket := by
  have hchange : ∀ c : Change, SettlesNothing s.docket (s.change c).docket := by
    intro c
    cases c <;> exact ⟨rfl, rfl, rfl⟩
  cases h with
  | changed => exact hchange _
  | executed => exact hchange _
  | _ => exact ⟨rfl, rfl, rfl⟩

theorem execManaged_settlesNothing (h : execManaged verify t a = .ok t')
    (hrequest : ∀ i remaining, a ≠ .core (.request i remaining))
    (hdeposit : ¬a.IsInstantDeposit) (hredeem : ¬a.IsInstantRedeem) :
    SettlesNothing t.core.docket t'.core.docket := by
  rcases execManaged_core h with ⟨b, rfl, hb, -⟩ | ⟨-, hidle⟩
  · cases b with
    | request i remaining => exact absurd rfl (hrequest i remaining)
    | instantDeposit ctx amount remaining => exact absurd ⟨_, _, _, rfl⟩ hdeposit
    | instantRedeem ctx shares remaining => exact absurd ⟨_, _, _, rfl⟩ hredeem
    | updateVaultNav authority u remaining =>
      obtain ⟨-, -, -, -, -, -, hdocket, -⟩ := updateVaultNav_posted hb
      exact .of_eq hdocket
    | config i =>
      exact (execConfig_configured hb).settlesNothing
    | world w =>
      obtain ⟨token, clock, houtside, -⟩ := execWorld_outside hb
      rw [houtside]
      exact ⟨rfl, rfl, rfl⟩
  · exact .of_eq hidle.docket

/-- With subscriptions paused a request instruction takes no assets. -/
theorem execRequest_not_takes (hs : Tallied s) (hs' : Tallied s')
    (hp : s.extensions.pausableSubscriptions = some true)
    (h : execRequest s i remaining = .ok s') : ¬TakesAssets s s' := by
  rintro ⟨m, hlt⟩
  obtain ⟨d, hd, hmove⟩ := execRequest_worked h
  rw [hs.received, hs'.received, hd.docket] at hlt
  refine hlt.not_ge (hmove.received_le (fun k ho => ?_) m)
  cases i with
  | createDepositRequest ctx args => exact createDepositRequest_unpaused h hp
  | _ => cases ho

/-- With redemptions paused a request instruction burns no shares for assets. -/
theorem execRequest_not_burns (hp : s.extensions.pausableRedemptions = some true)
    (h : execRequest s i remaining = .ok s') : ¬BurnsShares s s' := by
  obtain ⟨d, hd, hmove⟩ := execRequest_worked h
  rintro ⟨⟨m, hburned⟩, hlt | ⟨k, r, hnone, hsome, ht⟩⟩
  · -- only an approval moves settled assets, and an approval burns nothing
    have hbalance : s'.vault.totalAssetBalance = d.totalAssetBalance :=
      congrArg Docket.totalAssetBalance hd.docket
    rcases hmove.balance with heq | ⟨ctx, args, rfl⟩
    · exact hlt.ne (hbalance.trans heq)
    · exact hburned.ne (approveRequest_supply h m)
  · have hentry := hmove.entry k
    rw [show s.docket.requests.lookup k = none from hnone] at hentry
    have hopens := hentry.of_none ((congrArg (·.requests.lookup k) hd.docket).symm.trans hsome)
    cases i with
    | createRedeemRequest ctx args => exact createRedeemRequest_unpaused h hp
    | createDepositRequest ctx args =>
      have htype := congrArg Prod.snd (Option.some.inj hopens)
      rw [ht] at htype
      cases htype
    | _ => cases hopens

/-- An instant redemption brings nothing in. -/
theorem instantRedeem_not_takes (hs : Tallied s) (hs' : Tallied s') {ctx : InstantRedeem}
    {shares : ℕ} (h : instantRedeem s ctx shares remaining = .ok s') : ¬TakesAssets s s' := by
  rintro ⟨m, hlt⟩
  obtain ⟨gross, hd⟩ := instantRedeem_worked h
  rw [hs.received, hs'.received, hd.docket] at hlt
  refine hlt.not_ge (Nat.add_le_add_right ?_ _)
  show (if s.docket.assetMint = m then s.docket.totalAssetBalance - gross else 0) ≤ _
  split
  · exact Nat.sub_le _ _
  · exact le_rfl

/-- An instant deposit pays nothing out, and opens no request. -/
theorem instantDeposit_not_burns {ctx : InstantDeposit} {amount : ℕ}
    (h : instantDeposit s ctx amount remaining = .ok s') : ¬BurnsShares s s' := by
  obtain ⟨net, -, -, hd⟩ := instantDeposit_worked h
  rintro ⟨-, hlt | ⟨k, r, hnone, hsome, -⟩⟩
  · have hbalance : s'.vault.totalAssetBalance = s.vault.totalAssetBalance + net :=
      congrArg Docket.totalAssetBalance hd.docket
    omega
  · have hrequests : s'.requests = s.requests := congrArg Docket.requests hd.docket
    rw [hrequests, hnone] at hsome
    cases hsome

theorem execManaged_not_takes (ht : Tallied t.core) (ht' : Tallied t'.core)
    (hp : t.core.extensions.pausableSubscriptions = some true)
    (h : execManaged verify t a = .ok t') (hdeposit : ¬a.IsInstantDeposit) :
    ¬TakesAssets t.core t'.core := by
  by_cases hrequest : ∃ i remaining, a = .core (.request i remaining)
  · obtain ⟨i, remaining, rfl⟩ := hrequest
    obtain ⟨c, hc, hpost⟩ := bind_eq_ok.1 h
    obtain rfl := pure_eq_ok.1 hpost
    exact execRequest_not_takes ht ht' hp hc
  by_cases hredeem : a.IsInstantRedeem
  · obtain ⟨ctx, shares, remaining, rfl⟩ := hredeem
    obtain ⟨c, hc, hpost⟩ := bind_eq_ok.1 h
    obtain rfl := pure_eq_ok.1 hpost
    exact instantRedeem_not_takes ht ht' hc
  have hnothing := execManaged_settlesNothing h (fun i remaining ha => hrequest ⟨i, remaining, ha⟩)
    hdeposit hredeem
  exact hnothing.not_takes ht ht'

theorem execManaged_not_burns (hp : t.core.extensions.pausableRedemptions = some true)
    (h : execManaged verify t a = .ok t') (hredeem : ¬a.IsInstantRedeem) :
    ¬BurnsShares t.core t'.core := by
  by_cases hrequest : ∃ i remaining, a = .core (.request i remaining)
  · obtain ⟨i, remaining, rfl⟩ := hrequest
    obtain ⟨c, hc, hpost⟩ := bind_eq_ok.1 h
    obtain rfl := pure_eq_ok.1 hpost
    exact execRequest_not_burns hp hc
  by_cases hdeposit : a.IsInstantDeposit
  · obtain ⟨ctx, amount, remaining, rfl⟩ := hdeposit
    obtain ⟨c, hc, hpost⟩ := bind_eq_ok.1 h
    obtain rfl := pure_eq_ok.1 hpost
    exact instantDeposit_not_burns hc
  have hnothing := execManaged_settlesNothing h (fun i remaining ha => hrequest ⟨i, remaining, ha⟩)
    hdeposit hredeem
  exact hnothing.not_burns

/-- **The pause switches stop every way in but the instant one.** In every reachable state, with
subscriptions paused an instruction takes no assets for shares unless it is an instant deposit,
and an instant deposit does; with redemptions paused it burns no shares for assets unless it is
an instant redemption, and an instant redemption does.  What is done with requests that exist is
done whatever the switches. -/
theorem pauses_hold_iff (ht : t.IsReachable verify) (h : execManaged verify t a = .ok t') :
    (t.core.extensions.pausableSubscriptions = some true →
      (¬TakesAssets t.core t'.core ↔ ¬a.IsInstantDeposit)) ∧
    (t.core.extensions.pausableRedemptions = some true →
      (¬BurnsShares t.core t'.core ↔ ¬a.IsInstantRedeem)) ∧
    ∀ i remaining, a = .core (.request i remaining) → i.opens = none → ∀ p q,
      execManaged verify { t with core := t.core.withPauses p q } a =
        .ok { t' with core := t'.core.withPauses p q } := by
  have hnext : t'.IsReachable verify := Reachable.step ht h
  refine ⟨fun hp => ⟨fun hnot hdeposit => ?_, ?_⟩, fun hp => ⟨fun hnot hredeem => ?_, ?_⟩, ?_⟩
  · obtain ⟨ctx, amount, remaining, rfl⟩ := hdeposit
    obtain ⟨c, hc, hpost⟩ := bind_eq_ok.1 h
    obtain rfl := pure_eq_ok.1 hpost
    exact hnot (instantDeposit_takes hc)
  · exact execManaged_not_takes ht.tallied hnext.tallied hp h
  · obtain ⟨ctx, shares, remaining, rfl⟩ := hredeem
    obtain ⟨c, hc, hpost⟩ := bind_eq_ok.1 h
    obtain rfl := pure_eq_ok.1 hpost
    exact hnot (instantRedeem_burns hc)
  · exact execManaged_not_burns hp h
  · rintro i remaining rfl hi p q
    obtain ⟨c, hc, hpost⟩ := bind_eq_ok.1 h
    obtain rfl := pure_eq_ok.1 hpost
    have hpaused := (execRequest_commutes (p := p) (q := q) hi remaining).eq_ok hc
    exact bind_eq_ok.2 ⟨_, hpaused, rfl⟩

open Scenario

/-- A vault that settles instantly, with both kinds of entry paused. -/
def pausedVault : List ManagedAction :=
  (pauseEntries ++ openInstant ++ [start, post 10, openFeeAssetAccount]).map .core

theorem exists_paused_deposit : ∃ t t', ManagedState.IsReachable noCalls t ∧
    execManaged noCalls t (.core (depositNow 100)) = .ok t' ∧
    t.core.extensions.pausableSubscriptions = some true := by
  obtain ⟨t, t', ht, h, hp⟩ := exists_managed_step pausedVault (.core (depositNow 100))
    (fun t _ => t.core.extensions.pausableSubscriptions = some true) (by decide +kernel)
  exact ⟨t, t', ht, h, of_decide_eq_true hp⟩

theorem exists_paused_redemption : ∃ t t', ManagedState.IsReachable noCalls t ∧
    execManaged noCalls t (.core (redeemNow 5)) = .ok t' ∧
    t.core.extensions.pausableRedemptions = some true := by
  obtain ⟨t, t', ht, h, hp⟩ := exists_managed_step (pausedVault ++ [.core (depositNow 100)])
    (.core (redeemNow 5)) (fun t _ => t.core.extensions.pausableRedemptions = some true)
    (by decide +kernel)
  exact ⟨t, t', ht, h, of_decide_eq_true hp⟩

/-- **Non-vacuity.** An instant deposit goes through while subscriptions are paused. -/
theorem pauses_hold_iff_at_once : ∃ t t', ManagedState.IsReachable noCalls t ∧
    execManaged noCalls t (.core (depositNow 100)) = .ok t' ∧
    t.core.extensions.pausableSubscriptions = some true ∧ ¬¬TakesAssets t.core t'.core := by
  obtain ⟨t, t', ht, h, hp⟩ := exists_paused_deposit
  exact ⟨t, t', ht, h, hp, fun hnot => ((pauses_hold_iff ht h).1 hp).1 hnot ⟨_, _, _, rfl⟩⟩

/-- With both switches on, assets are still taken for shares and shares burned for assets. -/
theorem instant_settlement_unpaused :
    (∃ t a t', ManagedState.IsReachable noCalls t ∧ execManaged noCalls t a = .ok t' ∧
      t.core.extensions.pausableSubscriptions = some true ∧ TakesAssets t.core t'.core) ∧
    ∃ t a t', ManagedState.IsReachable noCalls t ∧ execManaged noCalls t a = .ok t' ∧
      t.core.extensions.pausableRedemptions = some true ∧ BurnsShares t.core t'.core := by
  constructor
  · obtain ⟨t, t', ht, h, hp⟩ := exists_paused_deposit
    obtain ⟨c, hc, hpost⟩ := bind_eq_ok.1 h
    obtain rfl := pure_eq_ok.1 hpost
    exact ⟨t, _, _, ht, h, hp, instantDeposit_takes hc⟩
  · obtain ⟨t, t', ht, h, hp⟩ := exists_paused_redemption
    obtain ⟨c, hc, hpost⟩ := bind_eq_ok.1 h
    obtain rfl := pure_eq_ok.1 hpost
    exact ⟨t, _, _, ht, h, hp, instantRedeem_burns hc⟩

end AsyncVault
