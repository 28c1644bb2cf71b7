/-
AsyncVault/Operations.lean

What the instructions other than configuration leave alone, and what they do to
the docket.

`Operated` is the frame: the settings of the vault and of its extensions, the
queued changes and the clock.  Each shared part of the request instructions has
one lemma that gives the frame and the docket it leaves, each request
instruction the move it makes (`execRequest_worked`).  Nothing here assumes that
the state is well formed or looks at tokens.
-/
import AsyncVault.Docket
import AsyncVault.Refinement

namespace AsyncVault

open Checked TokenLedger KeyedStore Function

variable {s s' s'' : VaultState} {d d' : Docket} {m : Pubkey} {t : RequestType} {r : Request}
variable {context : RequestShareMintContext} {remaining : List AccountInfo}

/-! ### The frame -/

/-- A vault account without the balances, counters and windows that settlement moves. -/
def Vault.settings (v : Vault) : Vault :=
  { v with
    totalAssetBalance := 0
    pendingDepositAmount := 0
    pendingAsyncRequests := 0
    managerWindowStartSlot := 0
    managerWindowAmount := 0
    externalWithdrawWindowStartSlot := 0
    externalWithdrawWindowAmount := 0
    redemptionWindowStartSlot := 0
    redemptionWindowAmount := 0 }

/-- The extensions of a vault with the counters of the queues zeroed. -/
def VaultExtensions.unqueued (ext : VaultExtensions) : VaultExtensions :=
  { ext with
    subscriptionQueue := ext.subscriptionQueue.map fun _ => ⟨0, 0⟩
    redemptionQueue := ext.redemptionQueue.map fun _ => ⟨0, 0⟩ }

/-- No setting changed and no change was queued. -/
structure Operated (s s' : VaultState) : Prop where
  key : s'.key = s.key
  clock : s'.clock = s.clock
  settings : s'.vault.settings = s.vault.settings
  extensions : s'.extensions.unqueued = s.extensions.unqueued
  vaultUpdates : s'.pendingVaultUpdates = s.pendingVaultUpdates
  feeUpdates : s'.pendingFeeUpdates = s.pendingFeeUpdates
  extensionUpdates : s'.pendingExtensionUpdates = s.pendingExtensionUpdates

theorem Operated.refl (s : VaultState) : Operated s s := ⟨rfl, rfl, rfl, rfl, rfl, rfl, rfl⟩

theorem Operated.trans (h : Operated s s') (h' : Operated s' s'') : Operated s s'' :=
  ⟨h'.key.trans h.key, h'.clock.trans h.clock, h'.settings.trans h.settings,
    h'.extensions.trans h.extensions, h'.vaultUpdates.trans h.vaultUpdates,
    h'.feeUpdates.trans h.feeUpdates, h'.extensionUpdates.trans h.extensionUpdates⟩

/-- No setting changed, and the docket is `d`. -/
structure Worked (s s' : VaultState) (d : Docket) : Prop extends Operated s s' where
  docket : s'.docket = d

theorem Worked.refl (s : VaultState) : Worked s s s.docket := ⟨.refl s, rfl⟩

theorem Worked.trans (h : Worked s s' d) (h' : Worked s' s'' d') : Worked s s'' d' :=
  ⟨h.toOperated.trans h'.toOperated, h'.docket⟩

/-- A step that keeps the docket, after one that leaves `d`. -/
theorem Worked.keep (h : Worked s s' d) (h' : Worked s' s'' s'.docket) : Worked s s'' d :=
  ⟨h.toOperated.trans h'.toOperated, h'.docket.trans h.docket⟩

theorem Worked.insert (h : Worked s s' d) (token : Ledger Pubkey) (k : Pubkey) (r : Request) :
    Worked s (s'.put token (s'.requests.insert k r))
      { d with requests := d.requests.insert k r } := by
  refine ⟨⟨h.key, h.clock, h.settings, h.extensions, h.vaultUpdates, h.feeUpdates,
    h.extensionUpdates⟩, ?_⟩
  rw [← h.docket]
  rfl

theorem Worked.erase (h : Worked s s' d) (token : Ledger Pubkey) (k : Pubkey) :
    Worked s (s'.put token (s'.requests.erase k)) { d with requests := d.requests.erase k } := by
  refine ⟨⟨h.key, h.clock, h.settings, h.extensions, h.vaultUpdates, h.feeUpdates,
    h.extensionUpdates⟩, ?_⟩
  rw [← h.docket]
  rfl

theorem Worked.withToken (h : Worked s s' d) (token : Ledger Pubkey) :
    Worked s (s'.put token s'.requests) d :=
  ⟨⟨h.key, h.clock, h.settings, h.extensions, h.vaultUpdates, h.feeUpdates, h.extensionUpdates⟩,
    h.docket⟩

/-! ### Counters and reservations -/

/-- A change of the vault account that leaves its settings and what the docket reads. -/
theorem Worked.withVault (h : Worked s s' d) {v : Vault}
    (hsettings : v.settings = s'.vault.settings)
    (hdocket : (s'.withVault v).docket = s'.docket) : Worked s (s'.withVault v) d :=
  ⟨⟨h.key, h.clock, hsettings.trans h.settings, h.extensions, h.vaultUpdates, h.feeUpdates,
    h.extensionUpdates⟩, hdocket.trans h.docket⟩

theorem incrementPendingRequests_worked (h : incrementPendingRequests s = .ok s') :
    Worked s s' s.docket := by
  simp only [incrementPendingRequests, bind_eq_ok, add_eq_ok, pure_eq_ok] at h
  obtain ⟨n, -, rfl⟩ := h
  exact (Worked.refl s).withVault rfl rfl

theorem decrementPendingRequests_worked (h : decrementPendingRequests s = .ok s') :
    Worked s s' s.docket := by
  simp only [decrementPendingRequests, bind_eq_ok, sub_eq_ok, pure_eq_ok] at h
  obtain ⟨n, -, rfl⟩ := h
  exact (Worked.refl s).withVault rfl rfl

theorem Docket.reserves_primary (hr : r.requestType = .deposit) (hp : r.requestState = .pending)
    (ha : r.assetMintAddress = d.assetMint) : d.reserves r = r.amount := by
  rw [Docket.reserves, if_pos ⟨hr, hp, ha⟩]

theorem Docket.reserves_secondary (ha : r.assetMintAddress ≠ d.assetMint) : d.reserves r = 0 := by
  rw [Docket.reserves, if_neg fun h => ha h.2.2]

theorem Docket.reserves_redeem (hr : r.requestType = .redeem) : d.reserves r = 0 := by
  rw [Docket.reserves, if_neg fun h => by rw [hr] at h; cases h.1]

/-- A reservation is made on the vault for a request of the primary asset only. -/
theorem addPendingDeposit_worked {vaultAsset : Option Pubkey} (hr : r.requestType = .deposit)
    (hp : r.requestState = .pending)
    (h : addPendingDeposit s r.assetMintAddress vaultAsset r.amount = .ok s') :
    Worked s s' { s.docket with
      pendingDepositAmount := s.docket.pendingDepositAmount + s.docket.reserves r } := by
  unfold addPendingDeposit at h
  split at h
  · next hm =>
    have hm : s.vault.assetMint = r.assetMintAddress := of_decide_eq_true hm
    simp only [bind_eq_ok, add_eq_ok, pure_eq_ok] at h
    obtain ⟨_, ⟨-, rfl⟩, rfl⟩ := h
    rw [Docket.reserves_primary hr hp hm.symm]
    exact ⟨⟨rfl, rfl, rfl, rfl, rfl, rfl, rfl⟩, rfl⟩
  · next hm =>
    have hm : s.vault.assetMint ≠ r.assetMintAddress := fun h => hm (decide_eq_true h)
    simp only [bind_eq_ok, okOr_eq_ok, add_eq_ok, pure_eq_ok] at h
    obtain ⟨_, -, _, -, _, -, rfl⟩ := h
    rw [Docket.reserves_secondary (fun h => hm h.symm), Nat.add_zero]
    exact ⟨⟨rfl, rfl, rfl, rfl, rfl, rfl, rfl⟩, rfl⟩

theorem subPendingDeposit_worked {vaultAsset : Option Pubkey} (hr : r.requestType = .deposit)
    (hp : r.requestState = .pending)
    (h : subPendingDeposit s r.assetMintAddress vaultAsset r.amount = .ok s') :
    s.docket.reserves r ≤ s.docket.pendingDepositAmount ∧
      Worked s s' { s.docket with
        pendingDepositAmount := s.docket.pendingDepositAmount - s.docket.reserves r } := by
  unfold subPendingDeposit at h
  split at h
  · next hm =>
    have hm : s.vault.assetMint = r.assetMintAddress := of_decide_eq_true hm
    simp only [bind_eq_ok, sub_eq_ok, pure_eq_ok] at h
    obtain ⟨_, ⟨hle, rfl⟩, rfl⟩ := h
    rw [Docket.reserves_primary hr hp hm.symm]
    exact ⟨hle, ⟨rfl, rfl, rfl, rfl, rfl, rfl, rfl⟩, rfl⟩
  · next hm =>
    have hm : s.vault.assetMint ≠ r.assetMintAddress := fun h => hm (decide_eq_true h)
    simp only [bind_eq_ok, okOr_eq_ok, sub_eq_ok, pure_eq_ok] at h
    obtain ⟨_, -, _, -, _, -, rfl⟩ := h
    rw [Docket.reserves_secondary (fun h => hm h.symm), Nat.sub_zero]
    exact ⟨Nat.zero_le _, ⟨rfl, rfl, rfl, rfl, rfl, rfl, rfl⟩, rfl⟩

/-- The cap leaves room for what a deposit reserves. -/
theorem checkDepositCap_ok {vaultAsset : Option Pubkey} {u : Unit} {n : ℕ}
    (h : checkDepositCap s m vaultAsset n = .ok u) (hm : s.vault.assetMint = m) :
    s.vault.depositCap = 0 ∨
      s.vault.totalAssetBalance + s.vault.pendingDepositAmount + n ≤ s.vault.depositCap := by
  have hprimary : s.vault.isPrimaryAsset m = true := decide_eq_true hm
  rw [checkDepositCap, if_pos hprimary, Vault.assertDepositCapAllows, Vault.capAllows] at h
  split at h
  · next h0 => exact .inl h0
  · simp only [bind_eq_ok, add_eq_ok, ensure_eq_ok] at h
    obtain ⟨_, ⟨-, rfl⟩, _, ⟨-, rfl⟩, hle⟩ := h
    exact .inr hle

/-! ### Lanes -/

theorem validateRequestShareMint_tranched
    (h : validateRequestShareMint s m remaining = .ok context) :
    context.trancheInfo.isSome = s.docket.tranched := by
  unfold validateRequestShareMint at h
  split at h
  · next hnone =>
    simp only [bind_eq_ok, pure_eq_ok] at h
    obtain ⟨-, -, rfl⟩ := h
    simp [VaultState.docket, hnone]
  · next expected hsome =>
    simp only [bind_eq_ok, pure_eq_ok] at h
    obtain ⟨-, -, -, -, -, -, -, -, -, -, -, -, rfl⟩ := h
    simp [VaultState.docket, hsome]

theorem FifoQueue.unqueued_setQueue (ext : VaultExtensions) {q : FifoQueue}
    (hq : ext.queue t = some q) (q' : FifoQueue) :
    (ext.setQueue t q').unqueued = ext.unqueued := by
  cases t with
  | deposit =>
    have hq : ext.subscriptionQueue = some q := hq
    simp [VaultExtensions.unqueued, VaultExtensions.setQueue, hq]
  | redeem =>
    have hq : ext.redemptionQueue = some q := hq
    simp [VaultExtensions.unqueued, VaultExtensions.setQueue, hq]

theorem VaultExtensions.queue_setQueue (ext : VaultExtensions) (t' : RequestType) (q : FifoQueue) :
    (ext.setQueue t q).queue t' = if t' = t then some q else ext.queue t' := by
  cases t <;> cases t' <;> rfl

/-- Setting the counters of a queue extension sets the lane of a plain vault. -/
theorem setQueue_worked (hplain : s.vault.trancheConfig = none) {q : FifoQueue}
    (hq : s.extensions.queue t = some q) (m : Pubkey) (q' : FifoQueue) :
    Worked s { s with extensions := s.extensions.setQueue t q' }
      { s.docket with lane := s.docket.setLane m t q' } := by
  refine ⟨⟨rfl, rfl, rfl, FifoQueue.unqueued_setQueue _ hq q', rfl, rfl, rfl⟩, ?_⟩
  refine Docket.ext rfl rfl ?_ rfl rfl rfl rfl
  funext m' t'
  simp [VaultState.docket, VaultState.lane, Docket.setLane, hplain,
    VaultExtensions.queue_setQueue]

@[simp] theorem toOption_pure (q : FifoQueue) : (pure q : Result FifoQueue).toOption = some q := rfl

theorem TrancheConfig.lane_setLane {tc : TrancheConfig} {q : FifoQueue}
    (hq : tc.lane m t = .ok q) (q' : FifoQueue) (m' : Pubkey) (t' : RequestType) :
    ((tc.setLane m t q').lane m' t').toOption =
      if t' = t ∧ m' = m then some q' else (tc.lane m' t').toOption := by
  unfold TrancheConfig.lane at hq
  unfold TrancheConfig.setLane
  split at hq
  · next hs =>
    -- the senior lane
    rw [if_pos hs]
    subst hs
    by_cases hm : m' = tc.seniorShareMint
    · cases t <;> cases t' <;> simp [TrancheConfig.lane, hm]
    · cases t <;> simp [TrancheConfig.lane, hm]
  · next hs =>
    rw [if_neg hs]
    split at hq
    · next hj =>
      subst hj
      by_cases hm : m' = tc.juniorShareMint
      · subst hm
        cases t <;> cases t' <;> simp [TrancheConfig.lane, hs]
      · cases t <;> simp [TrancheConfig.lane, hm]
    · cases hq

/-- Setting the counters of a tranche's lane. -/
theorem setTrancheLane_worked {pda : Pubkey} (htranched : s.vault.trancheConfig = some pda)
    (hfifo : s.extensions.hasFifoQueue t = true) {tc : TrancheConfig}
    (htc : s.trancheConfig = some tc) {q : FifoQueue} (hq : tc.lane m t = .ok q) (q' : FifoQueue) :
    Worked s { s with trancheConfig := some (tc.setLane m t q') }
      { s.docket with lane := s.docket.setLane m t q' } := by
  refine ⟨⟨rfl, rfl, rfl, rfl, rfl, rfl, rfl⟩, ?_⟩
  refine Docket.ext rfl rfl ?_ rfl rfl rfl rfl
  funext m' t'
  by_cases hfifo' : s.extensions.hasFifoQueue t' = true
  · simp [VaultState.docket, VaultState.lane, Docket.setLane, htranched, htc, hfifo',
      TrancheConfig.lane_setLane hq]
  · have ht : t' ≠ t := by
      rintro rfl
      exact hfifo' hfifo
    simp [VaultState.docket, VaultState.lane, Docket.setLane, htranched, hfifo', ht]

theorem lane_plain (hplain : s.vault.trancheConfig = none) (m : Pubkey) (t : RequestType) :
    s.docket.lane m t = s.extensions.queue t := by
  simp [VaultState.docket, VaultState.lane, hplain]

theorem lane_tranched {pda : Pubkey} (htranched : s.vault.trancheConfig = some pda)
    (hfifo : s.extensions.hasFifoQueue t = true) {tc : TrancheConfig}
    (htc : s.trancheConfig = some tc) {q : FifoQueue} (hq : tc.lane m t = .ok q) :
    s.docket.lane m t = some q := by
  simp [VaultState.docket, VaultState.lane, htranched, hfifo, htc, hq, Except.toOption]

theorem lane_unqueued {pda : Pubkey} (htranched : s.vault.trancheConfig = some pda)
    (hfifo : ¬s.extensions.hasFifoQueue t = true) : s.docket.lane m t = none := by
  simp [VaultState.docket, VaultState.lane, htranched, hfifo]

theorem Docket.enqueue_none (h : d.lane m t = none) : d.enqueue m t = (d.lane, none) := by
  rw [Docket.enqueue, h]

theorem Docket.enqueue_some {q : FifoQueue} (h : d.lane m t = some q) :
    d.enqueue m t = (d.setLane m t q.incrementTotal, some q.incrementTotal.total) := by
  rw [Docket.enqueue, h]

theorem Docket.dequeue_none (h : d.lane r.shareMintAddress r.requestType = none) :
    d.dequeue r = some d.lane := by
  rw [Docket.dequeue, h]

theorem Docket.dequeue_some {q : FifoQueue}
    (h : d.lane r.shareMintAddress r.requestType = some q)
    (hid : r.queueId r.requestType = some q.expected) :
    d.dequeue r = some (d.setLane r.shareMintAddress r.requestType
      { q with lastProcessed := q.expected }) := by
  simp only [Docket.dequeue, h]
  rw [if_pos hid]

/-- A new request enters its lane. -/
theorem nextRequestId_worked (htranched : context.trancheInfo.isSome = s.docket.tranched)
    {id : Option ℕ} (h : nextRequestId s context m t remaining = .ok (s', id)) :
    ∃ lane, s.docket.enqueue m t = (lane, id) ∧ Worked s s' { s.docket with lane := lane } := by
  unfold nextRequestId at h
  -- the lane is that of the tranche, if there is one, and that of the vault otherwise
  split at h
  · next hsome =>
    obtain ⟨pda, hpda⟩ := Option.isSome_iff_exists.1 (htranched.symm.trans hsome)
    split at h
    · next hfifo =>
      simp only [bind_eq_ok, TrancheConfig.nextQueueRequestId, pure_eq_ok, Prod.mk.injEq] at h
      obtain ⟨tc, htc, -, ⟨q, hq, rfl⟩, rfl, rfl⟩ := h
      have htc := writableTrancheConfig_ok htc
      exact ⟨_, Docket.enqueue_some (lane_tranched hpda hfifo htc hq),
        setTrancheLane_worked hpda hfifo htc hq _⟩
    · next hfifo =>
      obtain ⟨rfl, rfl⟩ := Prod.mk.inj (pure_eq_ok.1 h)
      exact ⟨_, Docket.enqueue_none (lane_unqueued hpda hfifo), .refl s⟩
  · next hnone =>
    have hplain : s.vault.trancheConfig = none := by
      rw [htranched] at hnone
      exact Option.not_isSome_iff_eq_none.1 hnone
    obtain ⟨rfl, rfl⟩ := Prod.mk.inj (pure_eq_ok.1 h)
    cases hq : s.extensions.queue t with
    | none => exact ⟨_, Docket.enqueue_none ((lane_plain hplain m t).trans hq), .refl s⟩
    | some q =>
      exact ⟨_, Docket.enqueue_some ((lane_plain hplain m t).trans hq),
        setQueue_worked hplain hq m _⟩

/-- A processed request leaves its lane. -/
theorem advanceQueue_worked (htranched : context.trancheInfo.isSome = s.docket.tranched)
    (h : advanceQueue s context r.shareMintAddress r remaining = .ok s') :
    ∃ lane, s.docket.dequeue r = some lane ∧ Worked s s' { s.docket with lane := lane } := by
  unfold advanceQueue at h
  split at h
  · next hsome =>
    obtain ⟨pda, hpda⟩ := Option.isSome_iff_exists.1 (htranched.symm.trans hsome)
    split at h
    · next hfifo =>
      -- a tranche with FIFO lanes has the queue in its configuration
      simp only [bind_eq_ok, okOr_eq_ok, TrancheConfig.checkAndAdvanceQueue, FifoQueue.advance,
        ensure_eq_ok, pure_eq_ok] at h
      obtain ⟨tc, htc, id, hid, -, ⟨q, hq, -, ⟨-, rfl, rfl⟩, rfl⟩, rfl⟩ := h
      have htc := writableTrancheConfig_ok htc
      exact ⟨_, Docket.dequeue_some (lane_tranched hpda hfifo htc hq) hid,
        setTrancheLane_worked hpda hfifo htc hq _⟩
    · next hfifo =>
      obtain rfl := pure_eq_ok.1 h
      exact ⟨_, Docket.dequeue_none (lane_unqueued hpda hfifo), .refl s⟩
  · next hnone =>
    -- without tranches the queue extension is the lane
    have hplain : s.vault.trancheConfig = none := by
      rw [htranched] at hnone
      exact Option.not_isSome_iff_eq_none.1 hnone
    simp only [bind_eq_ok, pure_eq_ok] at h
    obtain ⟨ext, hext, rfl⟩ := h
    unfold VaultExtensions.checkAndAdvanceQueue at hext
    split at hext
    · next hq =>
      obtain rfl := pure_eq_ok.1 hext
      exact ⟨_, Docket.dequeue_none ((lane_plain hplain _ _).trans hq), .refl s⟩
    · next q hq =>
      simp only [bind_eq_ok, okOr_eq_ok, FifoQueue.advance, ensure_eq_ok, pure_eq_ok] at hext
      obtain ⟨id, hid, -, ⟨-, rfl, rfl⟩, rfl⟩ := hext
      exact ⟨_, Docket.dequeue_some ((lane_plain hplain _ _).trans hq) hid,
        setQueue_worked hplain hq _ _⟩

/-! ### Settlements and refunds -/

theorem updateTrancheSupplyCache_worked {delta live : ℕ} {info : Option TrancheRequestInfo}
    {account : Option AccountInfo}
    (h : updateTrancheSupplyCache s m t delta live info account = .ok s') :
    Worked s s' s.docket := by
  -- recorded supplies are no part of the docket
  have hcache : ∀ tc tc' : TrancheConfig, s.trancheConfig = some tc →
      (∀ m t, tc'.lane m t = tc.lane m t) →
      Worked s { s with trancheConfig := some tc' } s.docket := by
    intro tc tc' htc hlane
    refine ⟨⟨rfl, rfl, rfl, rfl, rfl, rfl, rfl⟩, Docket.ext rfl rfl ?_ rfl rfl rfl rfl⟩
    funext m t
    simp [VaultState.docket, VaultState.lane, htc, hlane]
  unfold updateTrancheSupplyCache at h
  split at h
  · obtain rfl := pure_eq_ok.1 h
    exact .refl s
  · simp only [bind_eq_ok] at h
    obtain ⟨tc, htc, h⟩ := h
    have htc := writableTrancheConfig_ok htc
    split at h
    · simp only [bind_eq_ok, pure_eq_ok] at h
      obtain ⟨n, -, rfl⟩ := h
      exact hcache tc _ htc fun _ _ => rfl
    · split at h
      · simp only [bind_eq_ok, pure_eq_ok] at h
        obtain ⟨n, -, rfl⟩ := h
        exact hcache tc _ htc fun _ _ => rfl
      · obtain rfl := pure_eq_ok.1 h
        exact hcache tc _ htc fun _ _ => rfl

/-- A refund releases what the request reserved. -/
theorem refund_worked {ctx : RefundAccounts} (hp : r.requestState = .pending)
    (hm : r.assetMintAddress = ctx.assetMint) (h : refund s ctx r = .ok s') :
    s.docket.reserves r ≤ s.docket.pendingDepositAmount ∧
      Worked s s' { s.docket with
        pendingDepositAmount := s.docket.pendingDepositAmount - s.docket.reserves r } := by
  cases ht : r.requestType with
  | deposit =>
    obtain ⟨pending, a, program, token, s₁, h⟩ := (refund_deposit_iff ht).1 h
    have hsub := h.released
    rw [← hm] at hsub
    obtain ⟨hle, hsub⟩ := subPendingDeposit_worked ht hp hsub
    exact ⟨hle, (hsub.withToken token).keep (decrementPendingRequests_worked h.counted)⟩
  | redeem =>
    obtain ⟨a, program, token, h⟩ := (refund_redeem_iff ht).1 h
    rw [Docket.reserves_redeem ht]
    exact ⟨Nat.zero_le _, ((Worked.refl s).withToken token).keep
      (decrementPendingRequests_worked h.counted)⟩

/-! ### Request instructions -/

/-- Counting, reserving and queueing a request, and storing it. -/
theorem opened_worked {i : RequestInstruction} {k : Pubkey} {s₁ s₂ s₃ : VaultState}
    {token : Ledger Pubkey} (opens : i.opens = some (k, r.requestType))
    (fresh : s.requests.lookup k = none) (pending : r.requestState = .pending)
    (htranched : context.trancheInfo.isSome = s.docket.tranched)
    (hinc : Worked s s₁ s.docket)
    (hadd : Worked s₁ s₂ { s₁.docket with
      pendingDepositAmount := s₁.docket.pendingDepositAmount + s₁.docket.reserves r })
    (hnext : nextRequestId s₂ context r.shareMintAddress r.requestType remaining =
      .ok (s₃, r.queueId r.requestType))
    (capped : 0 < s.docket.reserves r → s.vault.depositCap = 0 ∨
      s.vault.totalAssetBalance + s.vault.pendingDepositAmount + s.docket.reserves r ≤
        s.vault.depositCap) :
    ∃ d, Worked s (s₃.put token (s₃.requests.insert k r)) d ∧ DocketMove s.docket i d := by
  rw [hinc.docket] at hadd
  obtain ⟨lane, henqueue, hnext⟩ := nextRequestId_worked (by rw [hadd.docket, htranched]) hnext
  rw [hadd.docket] at henqueue hnext
  exact ⟨_, ((hinc.trans hadd).trans hnext).insert token k r,
    .opened opens fresh pending henqueue capped⟩

theorem createDepositRequest_worked {ctx : CreateDepositRequest} {args : RequestArgs}
    (h : createDepositRequest s ctx args remaining = .ok s') :
    ∃ d, Worked s s' d ∧ DocketMove s.docket (.createDepositRequest ctx args) d := by
  obtain ⟨context, token, s₁, s₂, s₃, id, hacc, ⟨-, hinc, hadd, hnext, rfl⟩⟩ :=
    createDepositRequest_iff.1 h
  refine opened_worked rfl hacc.fresh rfl (validateRequestShareMint_tranched hacc.validated)
    (incrementPendingRequests_worked hinc) (addPendingDeposit_worked rfl rfl hadd) hnext ?_
  intro hpos
  by_cases hm : s.vault.assetMint = ctx.assetMint
  · rw [Docket.reserves_primary rfl rfl hm.symm]
    exact checkDepositCap_ok hacc.cap hm
  · rw [Docket.reserves_secondary (fun h => hm h.symm)] at hpos
    exact absurd hpos (Nat.lt_irrefl 0)

theorem createRedeemRequest_worked {ctx : CreateRedeemRequest} {args : RequestArgs}
    (h : createRedeemRequest s ctx args remaining = .ok s') :
    ∃ d, Worked s s' d ∧ DocketMove s.docket (.createRedeemRequest ctx args) d := by
  obtain ⟨context, token, s₁, s₂, id, hacc, ⟨-, hinc, hnext, rfl⟩⟩ :=
    createRedeemRequest_iff.1 h
  have hadd : ∀ r : Request, r.requestType = .redeem → Worked s₁ s₁ { s₁.docket with
      pendingDepositAmount := s₁.docket.pendingDepositAmount + s₁.docket.reserves r } := by
    intro r hr
    rw [Docket.reserves_redeem hr]
    exact .refl s₁
  refine opened_worked rfl hacc.fresh rfl (validateRequestShareMint_tranched hacc.validated)
    (incrementPendingRequests_worked hinc) (hadd _ rfl) hnext ?_
  intro hpos
  rw [Docket.reserves_redeem rfl] at hpos
  exact absurd hpos (Nat.lt_irrefl 0)

theorem settleDeposit_worked {ctx : ApproveRequest} {nav : ℕ} {share : Mint Pubkey}
    {settled : Settlement} (h : settleDeposit s ctx context r nav share remaining = .ok settled) :
    Worked s settled.state s.docket ∧ settled.balanceDelta ≤ r.amount := by
  obtain ⟨fee, net, _, _, _, _, token, hs, rfl⟩ := settleDeposit_iff.1 h
  refine ⟨(updateTrancheSupplyCache_worked hs.cached).withToken token, ?_⟩
  have hsum : fee + net = r.amount := getDepositFeeAndNet_add hs.parts
  show net ≤ r.amount
  omega

theorem settleRedeem_worked {ctx : ApproveRequest} {nav : ℕ} {share : Mint Pubkey}
    {settled : Settlement} (h : settleRedeem s ctx context r nav share remaining = .ok settled) :
    Worked s settled.state s.docket := by
  obtain ⟨_, _, _, _, s₁, v, _, token, hs, rfl⟩ := settleRedeem_iff.1 h
  obtain ⟨start, used, rfl⟩ := Vault.consumeRedemptionRollingLimit_ok hs.charged
  have hwindow := (updateTrancheSupplyCache_worked hs.cached).withVault
    (v := { s₁.vault with redemptionWindowStartSlot := start, redemptionWindowAmount := used })
    rfl rfl
  exact hwindow.withToken token

/-- A change of the two balances the docket reads. -/
theorem Worked.withBalances (h : Worked s s' d) (total pending : ℕ) :
    Worked s (s'.withVault { s'.vault with
        totalAssetBalance := total
        pendingDepositAmount := pending })
      { d with totalAssetBalance := total, pendingDepositAmount := pending } := by
  refine ⟨⟨h.key, h.clock, h.settings, h.extensions, h.vaultUpdates, h.feeUpdates,
    h.extensionUpdates⟩, ?_⟩
  rw [← h.docket]
  rfl

/-- Crediting a deposit takes no more than was reserved. -/
theorem creditDeposit_vault {v v' : Vault} {delta amount : ℕ}
    (h : creditDeposit v delta amount = .ok v') :
    amount ≤ v.pendingDepositAmount ∧
      v' = { v with
        totalAssetBalance := v.totalAssetBalance + delta
        pendingDepositAmount := v.pendingDepositAmount - amount } := by
  unfold creditDeposit at h
  split at h <;> simp only [bind_eq_ok, add_eq_ok, sub_eq_ok, ensure_eq_ok, pure_eq_ok] at h
  · obtain ⟨_, -, -, -, _, ⟨-, rfl⟩, _, ⟨hle, rfl⟩, rfl⟩ := h
    exact ⟨hle, rfl⟩
  · obtain ⟨_, ⟨-, rfl⟩, _, ⟨hle, rfl⟩, rfl⟩ := h
    exact ⟨hle, rfl⟩

theorem debitRedeem_vault {v v' : Vault} {delta : ℕ} (h : debitRedeem v delta = .ok v') :
    v' = { v with
      totalAssetBalance := v.totalAssetBalance - delta
      pendingDepositAmount := v.pendingDepositAmount } := by
  simp only [debitRedeem, bind_eq_ok, sub_eq_ok, pure_eq_ok] at h
  obtain ⟨_, ⟨-, rfl⟩, rfl⟩ := h
  rfl

/-- An approval is for a pending request of the primary asset. -/
theorem ApproveRequest.Accepted.docket {ctx : ApproveRequest} {args : ApproveRequestArgs}
    {share : Mint Pubkey} (h : ctx.Accepted s args remaining r share context) :
    s.docket.requests.lookup ctx.request = some r ∧ r.requestState = .pending ∧
      r.assetMintAddress = s.docket.assetMint ∧ r.shareMintAddress = ctx.shareMint ∧
      context.trancheInfo.isSome = s.docket.tranched := by
  refine ⟨h.found, h.pending, ?_, h.share, validateRequestShareMint_tranched h.context⟩
  have hprimary := h.accounts
  unfold checkSettlementAccounts at hprimary
  split at hprimary
  · next hm => exact h.asset.trans (of_decide_eq_true hm).symm
  · simp only [bind_eq_ok] at hprimary
    obtain ⟨-, -, -, -, -, -, ⟨⟩⟩ := hprimary

/-- Recording a settlement and counting the request as no longer pending. -/
theorem settled_worked {s₂ : VaultState} {ctx : ApproveRequest} {args : ApproveRequestArgs}
    {lane : Lanes} {amount price total released : ℕ}
    (hwork : Worked s s₂ { s.docket with lane := lane })
    (found : s.docket.requests.lookup ctx.request = some r) (pending : r.requestState = .pending)
    (primary : r.assetMintAddress = s.docket.assetMint) (dequeued : s.docket.dequeue r = some lane)
    (hreleased : s.docket.reserves r = released)
    (reserved : released ≤ s₂.vault.pendingDepositAmount)
    (balance : total ≤ s₂.vault.totalAssetBalance + released)
    (h : decrementPendingRequests ((s₂.withVault { s₂.vault with
        totalAssetBalance := total
        pendingDepositAmount := s₂.vault.pendingDepositAmount - released }).put s₂.token
      (s₂.requests.insert ctx.request
        { r with amount := amount, price := price, requestState := .claimable })) = .ok s') :
    ∃ d, Worked s s' d ∧ DocketMove s.docket (.approveRequest ctx args) d := by
  have htotal : s₂.vault.totalAssetBalance = s.docket.totalAssetBalance :=
    congrArg Docket.totalAssetBalance hwork.docket
  have hpending : s₂.vault.pendingDepositAmount = s.docket.pendingDepositAmount :=
    congrArg Docket.pendingDepositAmount hwork.docket
  have hput := ((hwork.withBalances total (s₂.vault.pendingDepositAmount - released)).insert
    s₂.token ctx.request
    { r with amount := amount, price := price, requestState := .claimable }).keep
    (decrementPendingRequests_worked h)
  rw [hpending, ← hreleased] at hput
  rw [hpending, ← hreleased] at reserved
  rw [htotal, ← hreleased] at balance
  exact ⟨_, hput, .settled found pending primary dequeued reserved balance⟩

theorem approveRequest_worked {ctx : ApproveRequest} {args : ApproveRequestArgs}
    (h : approveRequest s ctx args remaining = .ok s') :
    ∃ d, Worked s s' d ∧ DocketMove s.docket (.approveRequest ctx args) d := by
  obtain ⟨r, share, context, s₁, settled, v, hacc, hsettles⟩ := approveRequest_iff.1 h
  obtain ⟨hr, hp, ha, hm, htranched⟩ := hacc.docket
  have hadvance := hsettles.queue
  have hdec := hsettles.state
  rw [← hm] at hadvance
  obtain ⟨lane, hdequeue, hadvance⟩ := advanceQueue_worked htranched hadvance
  cases ht : r.requestType with
  | deposit =>
    obtain ⟨hsettled, hv⟩ := hsettles.deposit ht
    obtain ⟨hwork, hdelta⟩ := settleDeposit_worked hsettled
    obtain ⟨hle, rfl⟩ := creditDeposit_vault hv
    exact settled_worked (hadvance.keep hwork) hr hp ha hdequeue
      (Docket.reserves_primary ht hp ha) hle (Nat.add_le_add_left hdelta _) hdec
  | redeem =>
    obtain ⟨hsettled, hv⟩ := hsettles.redeem ht
    obtain rfl := debitRedeem_vault hv
    exact settled_worked (hadvance.keep (settleRedeem_worked hsettled)) hr hp ha hdequeue
      (Docket.reserves_redeem ht) (Nat.zero_le _) (Nat.sub_le _ _) hdec

theorem checkRequestMints_docket {assetMint shareMint : Pubkey}
    (h : checkRequestMints s assetMint shareMint r remaining = .ok context) :
    r.assetMintAddress = assetMint ∧ r.shareMintAddress = shareMint ∧
      context.trancheInfo.isSome = s.docket.tranched := by
  simp only [checkRequestMints, bind_eq_ok, ensure_eq_ok] at h
  obtain ⟨-, -, -, -, -, ha, -, hm, hcontext⟩ := h
  exact ⟨ha, hm, validateRequestShareMint_tranched hcontext⟩

theorem rejectRequest_worked {authority user : Pubkey} {ctx : RefundAccounts}
    {args : ApproveRequestArgs} (h : rejectRequest s authority user ctx args remaining = .ok s') :
    ∃ d, Worked s s' d ∧ DocketMove s.docket (.rejectRequest authority user ctx args) d := by
  obtain ⟨r, context, s₁, s₂, hreject⟩ := rejectRequest_iff.1 h
  obtain rfl := hreject.state
  obtain ⟨ha, hm, htranched⟩ := checkRequestMints_docket hreject.mints
  have hadvance := hreject.queue
  rw [← hm] at hadvance
  obtain ⟨lane, hdequeue, hadvance⟩ := advanceQueue_worked htranched hadvance
  obtain ⟨hle, hrefund⟩ := refund_worked hreject.pending ha hreject.refunded
  rw [hadvance.docket] at hle hrefund
  exact ⟨_, (hadvance.trans hrefund).erase s₂.token ctx.request,
    .rejected hreject.found hreject.pending hdequeue hle⟩

theorem cancelRequest_worked {user : Pubkey} {ctx : RefundAccounts}
    (h : cancelRequest s user ctx remaining = .ok s') :
    ∃ d, Worked s s' d ∧ DocketMove s.docket (.cancelRequest user ctx) d := by
  obtain ⟨r, context, s₁, hcancel⟩ := cancelRequest_iff.1 h
  obtain rfl := hcancel.state
  obtain ⟨ha, -, -⟩ := checkRequestMints_docket hcancel.mints
  have hqueue : r.queueId r.requestType = none := by
    have hunqueued := hcancel.unqueued
    unfold validateQueueExtensionConstraints at hunqueued
    cases ht : r.requestType <;> simp only [ht, ensure_eq_ok] at hunqueued <;>
      exact Option.isNone_iff_eq_none.1 hunqueued
  obtain ⟨hle, hrefund⟩ := refund_worked hcancel.pending ha hcancel.refunded
  exact ⟨_, hrefund.erase s₁.token ctx.request,
    .canceled hcancel.found hcancel.pending hqueue hle⟩

theorem cancelQueuedDepositRequest_worked {ctx : CancelQueuedDepositRequest}
    (h : cancelQueuedDepositRequest s ctx remaining = .ok s') :
    ∃ d, Worked s s' d ∧ DocketMove s.docket (.cancelQueuedDepositRequest ctx) d := by
  obtain ⟨r, context, s₁, hpark⟩ := cancelQueuedDepositRequest_iff.1 h
  obtain rfl := hpark.state
  obtain ⟨ha, -, -⟩ := checkRequestMints_docket hpark.mints
  obtain ⟨hle, hrefund⟩ := refund_worked hpark.pending ha hpark.refunded
  exact ⟨_, hrefund.insert s₁.token ctx.request _,
    .parked rfl hpark.found hpark.pending hpark.queueId hle⟩

theorem cancelQueuedRedemptionRequest_worked {ctx : CancelQueuedRedemptionRequest}
    (h : cancelQueuedRedemptionRequest s ctx remaining = .ok s') :
    ∃ d, Worked s s' d ∧ DocketMove s.docket (.cancelQueuedRedemptionRequest ctx) d := by
  obtain ⟨-, r, context, s₁, hpark⟩ := cancelQueuedRedemptionRequest_iff.1 h
  obtain rfl := hpark.state
  obtain ⟨ha, -, -⟩ := checkRequestMints_docket hpark.mints
  obtain ⟨hle, hrefund⟩ := refund_worked hpark.pending ha hpark.refunded
  exact ⟨_, hrefund.insert s₁.token ctx.request _,
    .parked rfl hpark.found hpark.pending hpark.queueId hle⟩

theorem skipCanceledQueueRequest_worked {k owner : Pubkey}
    (h : skipCanceledQueueRequest s k owner remaining = .ok s') :
    ∃ d, Worked s s' d ∧ DocketMove s.docket (.skipCanceledQueueRequest k owner) d := by
  obtain ⟨r, context, s₁, hskip⟩ := skipCanceledQueueRequest_iff.1 h
  obtain rfl := hskip.state
  obtain ⟨lane, hdequeue, hadvance⟩ :=
    advanceQueue_worked (validateRequestShareMint_tranched hskip.validated) hskip.queue
  exact ⟨_, hadvance.erase s₁.token k, .skipped hskip.found hskip.canceled hdequeue⟩

theorem claim_worked {ctx : Claim} (h : claim s ctx remaining = .ok s') :
    ∃ d, Worked s s' d ∧ DocketMove s.docket (.claim ctx) d := by
  obtain ⟨r, p, token, hc, -, rfl⟩ := claim_iff.1 h
  exact ⟨_, (Worked.refl s).erase token ctx.request, .claimed hc.found hc.claimable⟩

theorem setOperator_worked {user operator k : Pubkey} (h : setOperator s user operator k = .ok s') :
    ∃ d, Worked s s' d ∧ DocketMove s.docket (.setOperator user operator k) d := by
  obtain ⟨-, -, r, hr, -, rfl⟩ := setOperator_iff.1 h
  exact ⟨_, (Worked.refl s).insert s.token k _, .operated hr⟩

/-- **Every request instruction makes its move on the docket** and leaves the settings
alone. -/
theorem execRequest_worked {i : RequestInstruction} (h : execRequest s i remaining = .ok s') :
    ∃ d, Worked s s' d ∧ DocketMove s.docket i d := by
  cases i with
  | createDepositRequest ctx args => exact createDepositRequest_worked h
  | createRedeemRequest ctx args => exact createRedeemRequest_worked h
  | approveRequest ctx args => exact approveRequest_worked h
  | rejectRequest authority user ctx args => exact rejectRequest_worked h
  | cancelRequest user ctx => exact cancelRequest_worked h
  | cancelQueuedDepositRequest ctx => exact cancelQueuedDepositRequest_worked h
  | cancelQueuedRedemptionRequest ctx => exact cancelQueuedRedemptionRequest_worked h
  | skipCanceledQueueRequest k owner => exact skipCanceledQueueRequest_worked h
  | claim ctx => exact claim_worked h
  | setOperator user operator k => exact setOperator_worked h

/-! ### Instant settlements, NAV updates and third parties -/

/-- The cap leaves room for an instant deposit, which counts net of its fee. -/
theorem instantDeposit_worked {ctx : InstantDeposit} {amount : ℕ}
    (h : instantDeposit s ctx amount remaining = .ok s') :
    ∃ net, net ≤ amount ∧
      (s.vault.depositCap = 0 ∨ s.vault.totalAssetBalance + s.vault.pendingDepositAmount + amount ≤
        s.vault.depositCap) ∧
      Worked s s' { s.docket with totalAssetBalance := s.docket.totalAssetBalance + net } := by
  obtain ⟨_, _, _, _, fee, net, _, _, _, _, hi⟩ := instantDeposit_iff.1 h
  have hcap := hi.cap
  have hsum := getDepositFeeAndNet_add hi.parts
  obtain rfl := hi.state
  refine ⟨net, by omega, ?_, ⟨rfl, rfl, rfl, rfl, rfl, rfl, rfl⟩, rfl⟩
  rw [Vault.assertDepositCapAllows, Vault.capAllows] at hcap
  split at hcap
  · next h0 => exact .inl h0
  · simp only [bind_eq_ok, add_eq_ok, ensure_eq_ok] at hcap
    obtain ⟨_, ⟨-, rfl⟩, _, ⟨-, rfl⟩, hle⟩ := hcap
    exact .inr hle

theorem instantRedeem_worked {ctx : InstantRedeem} {shares : ℕ}
    (h : instantRedeem s ctx shares remaining = .ok s') :
    ∃ gross, Worked s s'
      { s.docket with totalAssetBalance := s.docket.totalAssetBalance - gross } := by
  obtain ⟨_, _, _, _, gross, _, _, v, _, _, _, hi⟩ := instantRedeem_iff.1 h
  obtain rfl := hi.state
  obtain ⟨start, used, rfl⟩ := Vault.consumeRedemptionRollingLimit_ok hi.limit
  exact ⟨gross, ⟨rfl, rfl, rfl, rfl, rfl, rfl, rfl⟩, rfl⟩

/-- A waterfall leaves the lanes and the terms of the tranches. -/
theorem maybeApplyTrancheWaterfall_ok {u : ℕ}
    (h : maybeApplyTrancheWaterfall s u remaining = .ok s') :
    ∃ tc, s' = { s with trancheConfig := tc } ∧
      tc.map TrancheConfig.lanes = s.trancheConfig.map TrancheConfig.lanes ∧
      tc.map TrancheConfig.terms = s.trancheConfig.map TrancheConfig.terms := by
  obtain ⟨-, rfl⟩ | ⟨_, _, _, tc, tc', senior, junior, h⟩ := maybeApplyTrancheWaterfall_iff.1 h
  · exact ⟨_, rfl, rfl, rfl⟩
  · obtain rfl := h.state
    rw [applyTrancheWaterfall_ok h.divided, loadTrancheConfig_ok h.loaded]
    exact ⟨_, rfl, rfl, rfl⟩

/-- The lanes of a vault depend on the tranche configuration through its lanes only. -/
theorem lane_congr {tc : Option TrancheConfig}
    (h : tc.map TrancheConfig.lanes = s.trancheConfig.map TrancheConfig.lanes) :
    ({ s with trancheConfig := tc } : VaultState).lane = s.lane := by
  have hbind : ∀ (tc : Option TrancheConfig) (m : Pubkey) (t : RequestType),
      (tc.bind fun tc => (tc.lane m t).toOption) =
        (tc.map TrancheConfig.lanes).bind fun lanes => lanes m t := by
    intro tc m t
    cases tc <;> rfl
  funext m t
  simp only [VaultState.lane, hbind, h]

/-- A NAV update writes the NAV and the marks of the performance fee, and nothing else of the
vault's settings. -/
theorem updateVaultNav_posted {authority : Pubkey} {u : ℕ}
    (h : updateVaultNav s authority u remaining = .ok s') :
    ∃ version mark crystallized tc token,
      s' = { s with
        vault := s.vault.posted u version s.clock.slot s.clock.unixTimestamp mark crystallized
        trancheConfig := tc
        token := token } ∧ s'.docket = s.docket ∧
      tc.map TrancheConfig.lanes = s.trancheConfig.map TrancheConfig.lanes ∧
      tc.map TrancheConfig.terms = s.trancheConfig.map TrancheConfig.terms ∧
      ∃ feeShares, Issued s.token token s.vault.shareMint feeShares := by
  obtain ⟨s₁, rest, s₂, h⟩ := updateVaultNav_iff.1 h
  have h₁ := h.charged
  have h₂ := h.divided
  obtain rfl := h.state
  obtain ⟨mark, crystallized, token, feeShares, rfl, hissued, -⟩ :=
    maybeCrystallizePerformanceFee_ok h₁
  obtain ⟨tc, rfl, hlanes, hterms⟩ := maybeApplyTrancheWaterfall_ok h₂
  refine ⟨_, mark, crystallized, tc, token, rfl, ?_, hlanes, hterms, feeShares, hissued⟩
  exact Docket.ext rfl rfl (lane_congr hlanes) rfl rfl rfl rfl

/-- Third parties and the passing of time change tokens and the clock, which does not run
backwards. -/
theorem execWorld_outside {w : WorldAction} (h : execWorld s w = .ok s') :
    ∃ token clock, s' = s.outside token clock ∧ s.clock.slot ≤ clock.slot := by
  simp only [execWorld, bind_eq_ok, pure_eq_ok] at h
  obtain ⟨token, -, clock, hclock, rfl⟩ := h
  refine ⟨token, clock, rfl, ?_⟩
  cases w
  case advanceClock clock' =>
    simp only [bind_eq_ok, require_eq_ok, pure_eq_ok] at hclock
    obtain ⟨-, hle, rfl⟩ := hclock
    exact hle
  all_goals
    obtain rfl := pure_eq_ok.1 hclock
    exact le_rfl

/-- Configuration changes nothing of the docket but lanes and the cap. -/
theorem Configured.docket {i : ConfigInstruction} (h : Configured s i s') :
    DocketStep s.docket s'.docket := by
  have hstep : ∀ s' : VaultState, s'.requests = s.requests →
      s'.vault.assetMint = s.vault.assetMint →
      s'.vault.totalAssetBalance = s.vault.totalAssetBalance →
      s'.vault.pendingDepositAmount = s.vault.pendingDepositAmount →
      DocketStep s.docket s'.docket := by
    intro s' hrequests hasset htotal hpending
    have hdocket : s'.docket = { s.docket with
        tranched := s'.docket.tranched
        lane := s'.docket.lane
        depositCap := s'.docket.depositCap } :=
      Docket.ext hrequests rfl rfl hasset rfl htotal hpending
    rw [hdocket]
    exact .configured
  have hchange : ∀ c : Change, DocketStep s.docket (s.change c).docket := by
    intro c
    cases c <;> exact hstep _ rfl rfl rfl rfl
  cases h with
  | changed => exact hchange _
  | executed => exact hchange _
  | _ => exact hstep _ rfl rfl rfl rfl

end AsyncVault
