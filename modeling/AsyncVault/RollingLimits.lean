/-
AsyncVault/RollingLimits.lean

What rolling limits let out.

A rolling limit is kept by a window: for the manager, for redemptions, for
external withdrawals, for each listed asset and for each user of instant
settlement in both directions (`RollingBucket`).  Several instructions charge the
same window; `charges` is what each of them does.  Whatever the order of
instructions, a window lets through no more than the limit in one epoch and no
more than twice the limit in as many slots as a window has (`rolling_limits`).
An instruction that fails is no step, and charges nothing.

A listed asset is taken off the list and put back with a new window; that is no
way round its limit, because nothing of it is ever settled, so that only empty
movements are charged to it.
-/
import AsyncVault.FreshNav
import AsyncVault.ManagedScenario
import AsyncVault.Lib.RateLimit

namespace AsyncVault

open Checked TokenLedger KeyedStore Function Machine RateLimit

variable {s s' s'' : VaultState} {t t' : ManagedState} {verify : MerkleCheck} {k m u : Pubkey}
variable {r : Request} {n : ℕ} {remaining : List AccountInfo} {i : RequestInstruction}
variable {context : RequestShareMintContext}

/-! ### Windows -/

/-- The windows amounts are charged to. -/
inductive RollingBucket
  | manager
  | redemption
  | externalWithdraw
  | asset (m : Pubkey)
  | userDeposit (user : Pubkey)
  | userRedeem (user : Pubkey)
  deriving DecidableEq

def VaultAsset.managerWindow (va : VaultAsset) : Window :=
  ⟨va.managerWindowStartSlot, va.managerWindowAmount⟩

namespace InstantSettlementUser

def depositWindow (a : InstantSettlementUser) : Window :=
  ⟨a.depositWindowStartSlot, a.depositWindowAmount⟩

def redeemWindow (a : InstantSettlementUser) : Window :=
  ⟨a.redeemWindowStartSlot, a.redeemWindowAmount⟩

end InstantSettlementUser

/-- The window of a bucket; that of an account which does not exist is empty. -/
def VaultState.window (s : VaultState) : RollingBucket → Window
  | .manager => ⟨s.vault.managerWindowStartSlot, s.vault.managerWindowAmount⟩
  | .redemption => ⟨s.vault.redemptionWindowStartSlot, s.vault.redemptionWindowAmount⟩
  | .externalWithdraw =>
    ⟨s.vault.externalWithdrawWindowStartSlot, s.vault.externalWithdrawWindowAmount⟩
  | .asset m => (s.vaultAssets m).elim ⟨0, 0⟩ VaultAsset.managerWindow
  | .userDeposit u => ((s.instantUsers u).getD .zeroed).depositWindow
  | .userRedeem u => ((s.instantUsers u).getD .zeroed).redeemWindow

/-- The limit of a bucket, zero for none. -/
def VaultState.rollingLimit (s : VaultState) : RollingBucket → ℕ
  | .manager => s.vault.managerRollingLimit
  | .redemption => s.vault.redemptionRollingLimit
  | .externalWithdraw => s.vault.externalWithdrawRollingLimit
  | .asset _ => s.vault.managerRollingLimit
  | .userDeposit _ => s.extensions.instantSettlement.elim 0 InstantSettlement.maxUserDepositAmount
  | .userRedeem _ => s.extensions.instantSettlement.elim 0 InstantSettlement.maxUserRedeemShares

/-! ### Charges -/

/-- The assets `shares` of `m` come to at `nav`, before fees. -/
def VaultState.grossAssets (s : VaultState) (m : Pubkey) (shares nav : ℕ) : ℕ :=
  (s.token.mints m).elim 0 fun y => FixedPoint.worth (10 ^ y.decimals) shares nav

/-- The limit amount of a managed call that the strategist's policy allows. -/
def ManagedState.limitAmount (verify : MerkleCheck) (t : ManagedState) (ctx : ManageVault)
    (args : ManageVaultArgs) (remaining : List PolicyAccountMeta) : Option ℕ :=
  (t.policies ctx.strategist).bind fun policy =>
    (verify
      { vault := t.core.key
        strategist := ctx.strategist
        policyVersion := .ofNat 64 args.policyVersion
        targetProgram := ctx.targetProgram
        instructionData := args.instructionData
        accounts := policyAccounts t.core.key remaining
        operators := args.operators } args.proof policy.merkleRoot).toOption.join

/-- **What an instruction charges to a bucket**, if it does. -/
def ManagedState.charges (verify : MerkleCheck) (t : ManagedState) :
    ManagedAction → RollingBucket → Option ℕ
  | .core (.request (.approveRequest ctx _) _), .redemption =>
    (t.core.requests.lookup ctx.request).bind fun r =>
      match r.requestType with
      | .deposit => none
      | .redeem => some (t.core.grossAssets r.shareMintAddress r.amount
          (t.core.price r.shareMintAddress))
  | .core (.instantRedeem ctx shares _), .redemption =>
    some (t.core.grossAssets ctx.shareMint shares t.core.vault.nav)
  | .core (.instantDeposit ctx amount _), .userDeposit u =>
    if ctx.user = u then some amount else none
  | .core (.instantRedeem ctx shares _), .userRedeem u =>
    if ctx.user = u then some shares else none
  | .venue (.deployVenuePosition ctx amount), .manager
  | .venue (.pullVenuePosition ctx amount), .manager =>
    if t.core.vault.isPrimaryAsset ctx.assetMint then some amount else none
  | .venue (.deployVenuePosition ctx amount), .asset m
  | .venue (.pullVenuePosition ctx amount), .asset m =>
    if ¬t.core.vault.isPrimaryAsset ctx.assetMint ∧ ctx.vaultAsset = some m then some amount
    else none
  | .venue (.withdrawAssets _ amount), .externalWithdraw => some amount
  | .manageVault ctx args remaining _, .manager => t.limitAmount verify ctx args remaining
  | _, _ => none

/-- The window of `b` after a charge, or as it was without one. -/
def Metered (s s' : VaultState) (b : RollingBucket) : Option ℕ → Prop
  | none => s'.window b = s.window b
  | some n =>
    Vault.consumeRollingLimit n s.clock.slot (s.rollingLimit b) s.vault.rollingLimitWindowSlots
      (s.window b).start (s.window b).used = .ok ((s'.window b).start, (s'.window b).used)

/-- Consuming a limit is a step of a limiter. -/
theorem consumeRollingLimit_step {limit width start used start' used' slot : ℕ}
    (hlimit : 0 < limit)
    (h : Vault.consumeRollingLimit n slot limit width start used = .ok (start', used')) :
    Step limit width ⟨start, used⟩ ⟨slot, n, start'⟩ ⟨start', used'⟩ := by
  unfold Vault.consumeRollingLimit at h
  rw [if_neg hlimit.ne'] at h
  simp only [bind_eq_ok, ensure_eq_ok, add_eq_ok, pure_eq_ok, Prod.mk.injEq] at h
  obtain ⟨-, -, stop, ⟨-, rfl⟩, used'', ⟨-, rfl⟩, -, hle, rfl, rfl⟩ := h
  split at hle
  · next hover =>
    rw [if_pos hover]
    simp only [Nat.zero_add] at hle ⊢
    exact .restarted hover rfl hle
  · next hover =>
    rw [if_neg hover]
    exact .counted rfl hle

/-! ### Unmetered steps -/

/-- The three windows of a vault account. -/
def Vault.windows (v : Vault) : Window × Window × Window :=
  (⟨v.managerWindowStartSlot, v.managerWindowAmount⟩,
    ⟨v.redemptionWindowStartSlot, v.redemptionWindowAmount⟩,
    ⟨v.externalWithdrawWindowStartSlot, v.externalWithdrawWindowAmount⟩)

/-- What a listed asset holds outside of its pending vault. -/
def VaultAsset.holdings (va : VaultAsset) : ℕ × ℕ := (va.idleBalance, va.deployedBalance)

/-- Nothing was charged, and no asset moved. -/
structure Unmetered (s s' : VaultState) : Prop where
  windows : s'.vault.windows = s.vault.windows
  users : s'.instantUsers = s.instantUsers
  holdings : ∀ m, (s'.vaultAssets m).map VaultAsset.holdings =
    (s.vaultAssets m).map VaultAsset.holdings

theorem Unmetered.refl (s : VaultState) : Unmetered s s := ⟨rfl, rfl, fun _ => rfl⟩

theorem Unmetered.trans (h : Unmetered s s') (h' : Unmetered s' s'') : Unmetered s s'' :=
  ⟨h'.windows.trans h.windows, h'.users.trans h.users, fun m =>
    (h'.holdings m).trans (h.holdings m)⟩

theorem Requeued.unmetered (h : Requeued s s') : Unmetered s s' := by
  obtain ⟨ext, tc, rfl, -⟩ := h
  exact ⟨rfl, rfl, fun _ => rfl⟩

theorem incrementPendingRequests_unmetered (h : incrementPendingRequests s = .ok s') :
    Unmetered s s' := by
  simp only [incrementPendingRequests, bind_eq_ok, pure_eq_ok] at h
  obtain ⟨_, -, rfl⟩ := h
  exact ⟨rfl, rfl, fun _ => rfl⟩

theorem decrementPendingRequests_unmetered (h : decrementPendingRequests s = .ok s') :
    Unmetered s s' := by
  simp only [decrementPendingRequests, bind_eq_ok, pure_eq_ok] at h
  obtain ⟨_, -, rfl⟩ := h
  exact ⟨rfl, rfl, fun _ => rfl⟩

/-- A change of what is pending in an asset moves none of it. -/
theorem unmetered_pending {va : VaultAsset} (hva : s.vaultAssets m = some va) (pending : ℕ) :
    Unmetered s
      { s with
        vaultAssets :=
          update s.vaultAssets m (some { va with pendingDepositAmount := pending }) } := by
  refine ⟨rfl, rfl, fun m' => ?_⟩
  show (update s.vaultAssets m _ m').map _ = _
  by_cases hm : m' = m
  · subst hm
    rw [update_self, hva]
    rfl
  · rw [update_of_ne hm]

theorem addPendingDeposit_unmetered {vaultAsset : Option Pubkey}
    (h : addPendingDeposit s m vaultAsset n = .ok s') : Unmetered s s' := by
  unfold addPendingDeposit at h
  split at h
  · simp only [bind_eq_ok, pure_eq_ok] at h
    obtain ⟨_, -, rfl⟩ := h
    exact ⟨rfl, rfl, fun _ => rfl⟩
  · simp only [bind_eq_ok, okOr_eq_ok, pure_eq_ok] at h
    obtain ⟨m', -, va, hva, pending, -, rfl⟩ := h
    exact unmetered_pending hva pending

theorem subPendingDeposit_unmetered {vaultAsset : Option Pubkey}
    (h : subPendingDeposit s m vaultAsset n = .ok s') : Unmetered s s' := by
  unfold subPendingDeposit at h
  split at h
  · simp only [bind_eq_ok, pure_eq_ok] at h
    obtain ⟨_, -, rfl⟩ := h
    exact ⟨rfl, rfl, fun _ => rfl⟩
  · simp only [bind_eq_ok, okOr_eq_ok, pure_eq_ok] at h
    obtain ⟨m', -, va, hva, pending, -, rfl⟩ := h
    exact unmetered_pending hva pending

theorem refund_unmetered {ctx : RefundAccounts} (h : refund s ctx r = .ok s') :
    Unmetered s s' := by
  cases ht : r.requestType with
  | deposit =>
    obtain ⟨pending, a, program, token, s₁, h⟩ := (refund_deposit_iff ht).1 h
    have htoken : Unmetered s₁ (s₁.put token s₁.requests) := ⟨rfl, rfl, fun _ => rfl⟩
    exact (subPendingDeposit_unmetered h.released).trans
      (htoken.trans (decrementPendingRequests_unmetered h.counted))
  | redeem =>
    obtain ⟨a, program, token, h⟩ := (refund_redeem_iff ht).1 h
    have htoken : Unmetered s (s.put token s.requests) := ⟨rfl, rfl, fun _ => rfl⟩
    exact htoken.trans (decrementPendingRequests_unmetered h.counted)

/-! ### Request instructions -/

/-- Apart from approvals, request instructions charge nothing. -/
theorem execRequest_unmetered (h : execRequest s i remaining = .ok s')
    (hi : ∀ ctx args, i ≠ .approveRequest ctx args) : Unmetered s s' := by
  -- the record of the request and the tokens are no windows
  have hput : ∀ (s : VaultState) token requests, Unmetered s (s.put token requests) :=
    fun _ _ _ => ⟨rfl, rfl, fun _ => rfl⟩
  cases i with
  | createDepositRequest ctx args =>
    obtain ⟨_, _, s₁, s₂, s₃, _, -, ⟨-, h₁, h₂, h₃, rfl⟩⟩ := createDepositRequest_iff.1 h
    exact (incrementPendingRequests_unmetered h₁).trans ((addPendingDeposit_unmetered h₂).trans
      ((nextRequestId_ok h₃).unmetered.trans (hput s₃ _ _)))
  | createRedeemRequest ctx args =>
    obtain ⟨_, _, s₁, s₂, _, -, ⟨-, h₁, h₂, rfl⟩⟩ := createRedeemRequest_iff.1 h
    exact (incrementPendingRequests_unmetered h₁).trans
      ((nextRequestId_ok h₂).unmetered.trans (hput s₂ _ _))
  | approveRequest ctx args => exact absurd rfl (hi ctx args)
  | rejectRequest authority user ctx args =>
    obtain ⟨_, _, _, s₂, h⟩ := rejectRequest_iff.1 h
    obtain rfl := h.state
    exact (advanceQueue_ok h.queue).unmetered.trans
      ((refund_unmetered h.refunded).trans (hput s₂ _ _))
  | cancelRequest user ctx =>
    obtain ⟨_, _, s₁, h⟩ := cancelRequest_iff.1 h
    obtain rfl := h.state
    exact (refund_unmetered h.refunded).trans (hput s₁ _ _)
  | cancelQueuedDepositRequest ctx =>
    obtain ⟨_, _, s₁, h⟩ := cancelQueuedDepositRequest_iff.1 h
    obtain rfl := h.state
    exact (refund_unmetered h.refunded).trans (hput s₁ _ _)
  | cancelQueuedRedemptionRequest ctx =>
    obtain ⟨-, _, _, s₁, h⟩ := cancelQueuedRedemptionRequest_iff.1 h
    obtain rfl := h.state
    exact (refund_unmetered h.refunded).trans (hput s₁ _ _)
  | skipCanceledQueueRequest k owner =>
    obtain ⟨_, _, s₁, h⟩ := skipCanceledQueueRequest_iff.1 h
    obtain rfl := h.state
    exact (advanceQueue_ok h.queue).unmetered.trans (hput s₁ _ _)
  | claim ctx =>
    obtain ⟨r, p, token, -, -, rfl⟩ := claim_iff.1 h
    exact hput s _ _
  | setOperator user operator k =>
    obtain ⟨-, -, r, -, -, rfl⟩ := setOperator_iff.1 h
    exact hput s _ _

/-- What an approval charges and leaves: the redemption window, with the gross assets of a
redemption. -/
theorem approveRequest_metered (hc : s.terms.Coherent) {ctx : ApproveRequest}
    {args : ApproveRequestArgs} (h : approveRequest s ctx args remaining = .ok s') :
    ∃ r, s.requests.lookup ctx.request = some r ∧
      s'.window .manager = s.window .manager ∧
      s'.window .externalWithdraw = s.window .externalWithdraw ∧
      s'.instantUsers = s.instantUsers ∧
      (∀ m, (s'.vaultAssets m).map VaultAsset.holdings =
        (s.vaultAssets m).map VaultAsset.holdings) ∧
      match r.requestType with
      | .deposit => s'.window .redemption = s.window .redemption
      | .redeem => Metered s s' .redemption
          (some (s.grossAssets r.shareMintAddress r.amount (s.price r.shareMintAddress))) := by
  obtain ⟨r, share, context, s₁, x, v, hacc, hsettles⟩ := approveRequest_iff.1 h
  have hm := hacc.share
  have hshare := hacc.shareMint
  -- the vault and the request agree on the share mint, so the context is the recorded one
  obtain rfl := hacc.context_eq hc
  obtain ⟨ext, tc, rfl, -⟩ := advanceQueue_ok hsettles.queue
  have hstate := hsettles.state
  simp only [decrementPendingRequests, bind_eq_ok, pure_eq_ok] at hstate
  obtain ⟨pending, -, rfl⟩ := hstate
  refine ⟨r, hacc.found, ?_⟩
  -- a deposit writes no window: only its fees and the supply cache move
  cases ht : r.requestType with
  | deposit =>
    obtain ⟨hsettle, hv⟩ := hsettles.deposit ht
    obtain ⟨_, _, _, _, _, _, _, hs, rfl⟩ := settleDeposit_iff.1 hsettle
    obtain ⟨tc', rfl, -⟩ := updateTrancheSupplyCache_terms hs.cached
    obtain ⟨-, rfl⟩ := creditDeposit_vault hv
    exact ⟨rfl, rfl, rfl, fun _ => rfl, rfl⟩
  | redeem =>
    obtain ⟨hsettle, hv⟩ := hsettles.redeem ht
    obtain ⟨gross, _, _, _, _, w, _, _, hs, rfl⟩ := settleRedeem_iff.1 hsettle
    obtain ⟨tc', rfl, -⟩ := updateTrancheSupplyCache_terms hs.cached
    have hcharged := hs.charged
    simp only [Vault.consumeRedemptionRollingLimit, bind_eq_ok, pure_eq_ok] at hcharged
    obtain ⟨⟨start, used⟩, hlimit, rfl⟩ := hcharged
    obtain rfl := debitRedeem_vault hv
    have hgross := hs.valued
    -- the charge is read off the state before, with the price the handler worked out
    have hworth : gross = FixedPoint.worth (10 ^ share.decimals) r.amount (s.price ctx.shareMint) :=
      (calculateAssets_eq_ok.1 hgross).2.2.2.2
    have hcharge :
        s.grossAssets r.shareMintAddress r.amount (s.price r.shareMintAddress) = gross := by
      rw [hm, VaultState.grossAssets, hshare, hworth]
      rfl
    refine ⟨rfl, rfl, rfl, fun _ => rfl, ?_⟩
    show Vault.consumeRollingLimit (s.grossAssets r.shareMintAddress r.amount
      (s.price r.shareMintAddress)) s.clock.slot s.vault.redemptionRollingLimit
      s.vault.rollingLimitWindowSlots s.vault.redemptionWindowStartSlot
      s.vault.redemptionWindowAmount = .ok (start, used)
    rw [hcharge]
    exact hlimit

/-! ### Instant settlement -/

/-- The account of a user keeps its windows when it is loaded. -/
theorem loadOrInitInstantUser_windows {info : Option AccountInfo} {a : InstantSettlementUser}
    (h : loadOrInitInstantUser s info u = .ok a) :
    a.depositWindow = s.window (.userDeposit u) ∧ a.redeemWindow = s.window (.userRedeem u) := by
  simp only [loadOrInitInstantUser, InstantSettlementUser.ensureInitialized, bind_eq_ok] at h
  obtain ⟨-, -, -, -, h⟩ := h
  split at h
  · obtain rfl := pure_eq_ok.1 h
    exact ⟨rfl, rfl⟩
  · simp only [bind_eq_ok, pure_eq_ok] at h
    obtain ⟨-, -, -, -, rfl⟩ := h
    exact ⟨rfl, rfl⟩

/-- The settings instant settlement reads are those of the vault. -/
theorem instantSettlement_of_enabled {ext : VaultExtensions} {inst : InstantSettlement}
    (h : ext.assertInstantSettlementEnabled = .ok inst) : ext.instantSettlement = some inst := by
  simp only [VaultExtensions.assertInstantSettlementEnabled, bind_eq_ok, okOr_eq_ok,
    pure_eq_ok] at h
  obtain ⟨inst', hinst, -, -, rfl⟩ := h
  exact hinst

theorem instantDeposit_metered {ctx : InstantDeposit} {amount : ℕ}
    (h : instantDeposit s ctx amount remaining = .ok s') :
    s'.vault.windows = s.vault.windows ∧ s'.vaultAssets = s.vaultAssets ∧
      (∀ u, u ≠ ctx.user → s'.instantUsers u = s.instantUsers u) ∧
      s'.window (.userRedeem ctx.user) = s.window (.userRedeem ctx.user) ∧
      Metered s s' (.userDeposit ctx.user) (some amount) := by
  obtain ⟨_, _, inst, users, _, _, _, _, _, _, hi⟩ := instantDeposit_iff.1 h
  have hinst := instantSettlement_of_enabled hi.accepted.enabled
  have husers := hi.charged
  obtain rfl := hi.state
  have hlimit : s.rollingLimit (.userDeposit ctx.user) = inst.maxUserDepositAmount := by
    simp only [VaultState.rollingLimit, hinst]
    rfl
  -- a limit of zero is no limit: the account is then not even loaded
  unfold InstantDeposit.charge at husers
  split at husers
  · simp only [InstantSettlementUser.consumeDepositLimit, bind_eq_ok, pure_eq_ok] at husers
    obtain ⟨a, ha, a', ⟨⟨start, used⟩, hconsume, rfl⟩, rfl⟩ := husers
    obtain ⟨hdeposit, hredeem⟩ := loadOrInitInstantUser_windows ha
    refine ⟨rfl, rfl, fun u hu => update_of_ne hu _ _, ?_, ?_⟩
    · simp only [VaultState.window, update_self]
      exact hredeem
    · have hwindow : ((s.instantUsers ctx.user).getD .zeroed).depositWindow = a.depositWindow :=
        hdeposit.symm
      simp only [Metered, VaultState.window, update_self, hlimit]
      rw [hwindow]
      exact hconsume
  · next hzero =>
    obtain rfl := pure_eq_ok.1 husers
    refine ⟨rfl, rfl, fun _ _ => rfl, rfl, ?_⟩
    simp only [Metered, hlimit, Vault.consumeRollingLimit, if_pos (not_not.1 hzero)]
    rfl

theorem instantRedeem_metered {ctx : InstantRedeem} {shares : ℕ}
    (h : instantRedeem s ctx shares remaining = .ok s') :
    s'.window .manager = s.window .manager ∧
      s'.window .externalWithdraw = s.window .externalWithdraw ∧ s'.vaultAssets = s.vaultAssets ∧
      (∀ u, u ≠ ctx.user → s'.instantUsers u = s.instantUsers u) ∧
      s'.window (.userDeposit ctx.user) = s.window (.userDeposit ctx.user) ∧
      Metered s s' (.userRedeem ctx.user) (some shares) ∧
      Metered s s' .redemption (some (s.grossAssets ctx.shareMint shares s.vault.nav)) := by
  obtain ⟨_, share, inst, users, gross, _, _, v, _, _, _, hi⟩ := instantRedeem_iff.1 h
  have hinst := instantSettlement_of_enabled hi.accepted.enabled
  have hshare := hi.accepted.shareExists
  have hgross := hi.valued
  have husers := hi.charged
  have hlimited := hi.limit
  obtain rfl := hi.state
  simp only [Vault.consumeRedemptionRollingLimit, bind_eq_ok, pure_eq_ok] at hlimited
  obtain ⟨⟨start, used⟩, hconsume, rfl⟩ := hlimited
  have hworth : gross = FixedPoint.worth (10 ^ share.decimals) shares s.vault.nav :=
    (calculateAssets_eq_ok.1 hgross).2.2.2.2
  -- the vault is charged the assets before fees, the user the shares
  have hcharge : s.grossAssets ctx.shareMint shares s.vault.nav = gross := by
    rw [VaultState.grossAssets, hshare, hworth]
    rfl
  have hlimit : s.rollingLimit (.userRedeem ctx.user) = inst.maxUserRedeemShares := by
    simp only [VaultState.rollingLimit, hinst]
    rfl
  rw [hcharge]
  -- a limit of zero leaves the account of the user alone
  unfold InstantRedeem.charge at husers
  split at husers
  · simp only [InstantSettlementUser.consumeRedeemLimit, bind_eq_ok, pure_eq_ok] at husers
    obtain ⟨a, ha, a', ⟨⟨start', used'⟩, hconsume', rfl⟩, rfl⟩ := husers
    obtain ⟨hdeposit, hredeem⟩ := loadOrInitInstantUser_windows ha
    refine ⟨rfl, rfl, rfl, fun u hu => update_of_ne hu _ _, ?_, ?_, hconsume⟩
    · simp only [VaultState.window, update_self]
      exact hdeposit
    · have hwindow : ((s.instantUsers ctx.user).getD .zeroed).redeemWindow = a.redeemWindow :=
        hredeem.symm
      simp only [Metered, VaultState.window, update_self, hlimit]
      rw [hwindow]
      exact hconsume'
  · next hzero =>
    obtain rfl := pure_eq_ok.1 husers
    refine ⟨rfl, rfl, rfl, fun _ _ => rfl, rfl, ?_, hconsume⟩
    simp only [Metered, hlimit, Vault.consumeRollingLimit, if_pos (not_not.1 hzero)]
    rfl

/-! ### Configuration -/

/-- Configuration charges nothing, and resets no window of the vault. -/
theorem Configured.windows {i : ConfigInstruction} (h : Configured s i s') :
    s'.vault.windows = s.vault.windows ∧ s'.instantUsers = s.instantUsers := by
  have hchange : ∀ c : Change, (s.change c).vault.windows = s.vault.windows ∧
      (s.change c).instantUsers = s.instantUsers := by
    intro c
    cases c <;> exact ⟨rfl, rfl⟩
  cases h with
  | changed => exact hchange _
  | executed => exact hchange _
  | _ => exact ⟨rfl, rfl⟩

/-- Nothing of the listed assets has been settled. -/
def Unstocked (s : VaultState) : Prop :=
  ∀ m va, s.vaultAssets m = some va → va.holdings = (0, 0)

theorem Unstocked.of_holdings (h : Unstocked s)
    (hkept : ∀ m, (s'.vaultAssets m).map VaultAsset.holdings =
      (s.vaultAssets m).map VaultAsset.holdings) : Unstocked s' := by
  intro m va hva
  have hm := hkept m
  rw [hva] at hm
  obtain ⟨va₀, hva₀, hholdings⟩ := Option.map_eq_some_iff.1 hm.symm
  exact hholdings ▸ h m va₀ hva₀

theorem Unstocked.of_eq (h : Unstocked s) (hkept : s'.vaultAssets = s.vaultAssets) :
    Unstocked s' :=
  h.of_holdings fun _ => by rw [hkept]

/-- An asset is listed empty. -/
theorem Unstocked.execConfig (h : Unstocked s) {i : ConfigInstruction}
    (he : execConfig s i = .ok s') : Unstocked s' := by
  by_cases hi : i.IsSetting
  · exact h.of_eq (execConfig_reconfigured hi he).vaultAssets
  cases i <;> try exact absurd trivial hi
  case initializeTranches ctx args =>
    obtain ⟨token, hd⟩ := initializeTranches_divides he
    rw [hd.state]
    exact h
  case addVaultAsset ctx depositCap =>
    obtain ⟨token₁, token, hl⟩ := addVaultAsset_listed he
    rw [hl.state]
    intro m va hva
    by_cases hm : m = ctx.assetMint
    · subst hm
      obtain rfl := Option.some.inj (hva.symm.trans (update_self ..))
      rfl
    · exact h m va ((update_of_ne hm _ _).symm.trans hva)
  case removeVaultAsset authority asset =>
    obtain ⟨va, token₁, token, count, hremoved⟩ := removeVaultAsset_removed he
    rw [hremoved.state]
    intro m va hva
    by_cases hm : m = asset
    · subst hm
      exact absurd (hva.symm.trans (update_self ..)) (by simp)
    · exact h m va ((update_of_ne hm _ _).symm.trans hva)

/-! ### Venues -/

/-- What a movement of `amount` charges: the manager's window for the primary asset, and nothing
at all for another asset, of which nothing can move. -/
structure MovementCharged (s s' : VaultState) (assetMint : Pubkey) (amount : ℕ) : Prop where
  users : s'.instantUsers = s.instantUsers
  redemption : s'.window .redemption = s.window .redemption
  externalWithdraw : s'.window .externalWithdraw = s.window .externalWithdraw
  primary : s.vault.isPrimaryAsset assetMint = true → Metered s s' .manager (some amount)
  secondary : ¬s.vault.isPrimaryAsset assetMint = true →
    s'.window .manager = s.window .manager ∧ amount = 0
  unstocked : Unstocked s'

theorem MovementCharged.withToken {amount : ℕ} (h : MovementCharged s s' m amount)
    (token : Ledger Pubkey) : MovementCharged s { s' with token := token } m amount :=
  ⟨h.users, h.redemption, h.externalWithdraw, h.primary, h.secondary, h.unstocked⟩

/-- A movement of the primary asset charges the manager's window.  One of another asset moves
nothing, as nothing was settled. -/
theorem accountMovement_metered (hs : Unstocked t.core) {ctx : VenuePosition} {p : Position}
    {amount : ℕ} {unavailable : AsyncVaultError} {available : VaultAsset → ℕ}
    {move : PositionLedger → Result PositionLedger} {ledger : Option PositionLedger}
    (havailable : ∀ va, va.holdings = (0, 0) → available va = 0)
    (hmove : ∀ p l, amount = 0 → move ⟨p, 0, 0⟩ = .ok l → l.idleBalance = 0 ∧ l.deployedBalance = 0)
    (h : accountMovement t ctx p amount unavailable available move = .ok (s', ledger)) :
    MovementCharged t.core s' ctx.assetMint amount := by
  obtain ⟨start, used, h, -⟩ | ⟨m, va, start, used, l, h, -⟩ := accountMovement_iff.1 h
  · have hprimary : t.core.vault.isPrimaryAsset ctx.assetMint = true := decide_eq_true h.primary
    have hwindow := h.window
    obtain rfl := h.state
    exact ⟨rfl, rfl, rfl, fun _ => hwindow, fun hn => absurd hprimary hn, hs⟩
  -- a listed asset is never stocked, so the movement is of nothing
  · have hsecondary : ¬t.core.vault.isPrimaryAsset ctx.assetMint = true := by
      simpa [Vault.isPrimaryAsset] using h.secondary
    have hasset := h.asset
    simp only [VaultState.secondaryAsset, bind_eq_ok, okOr_eq_ok, pure_eq_ok] at hasset
    obtain ⟨m', hm', va', hva, -, -, rfl⟩ := hasset
    obtain rfl := Option.some.inj hm'
    have hempty := hs m va' hva
    have hzero : amount = 0 := by
      have hle := h.covered
      rw [havailable va' hempty] at hle
      exact Nat.le_zero.1 hle
    obtain ⟨hidle, hdeployed⟩ := Prod.mk.inj hempty
    have hl := h.moved
    simp only [hidle, hdeployed] at hl
    obtain ⟨hidle', hdeployed'⟩ := hmove _ _ hzero hl
    obtain rfl := h.state
    refine ⟨rfl, rfl, rfl, fun hp => absurd hp hsecondary, fun _ => ⟨rfl, hzero⟩,
      fun m₁ va₁ hva₁ => ?_⟩
    -- the written account is empty again, and the others are as they were
    by_cases hm : m₁ = m
    · subst hm
      obtain rfl := Option.some.inj (hva₁.symm.trans (update_self ..))
      exact Prod.ext hidle' hdeployed'
    · exact hs m₁ va₁ ((update_of_ne hm _ _).symm.trans hva₁)

theorem PositionLedger.deploy_nothing {p : ℕ} {l : PositionLedger} (hn : n = 0)
    (h : PositionLedger.deploy ⟨p, 0, 0⟩ n = .ok l) :
    l.idleBalance = 0 ∧ l.deployedBalance = 0 := by
  subst hn
  simp only [PositionLedger.deploy, bind_eq_ok, add_eq_ok, sub_eq_ok, pure_eq_ok] at h
  obtain ⟨-, -, _, -, _, ⟨-, rfl⟩, _, ⟨-, rfl⟩, rfl⟩ := h
  exact ⟨rfl, rfl⟩

theorem PositionLedger.pull_nothing {p : ℕ} {l : PositionLedger} (hn : n = 0)
    (h : PositionLedger.pull ⟨p, 0, 0⟩ n = .ok l) : l.idleBalance = 0 ∧ l.deployedBalance = 0 := by
  subst hn
  simp only [PositionLedger.pull, bind_eq_ok, add_eq_ok, sub_eq_ok, pure_eq_ok] at h
  obtain ⟨-, -, _, -, _, ⟨-, rfl⟩, _, ⟨-, rfl⟩, rfl⟩ := h
  exact ⟨rfl, rfl⟩

/-- A movement's charges, bucket by bucket. -/
theorem MovementCharged.metered {amount : ℕ} (h : MovementCharged s s' m amount)
    (b : RollingBucket) (hb : ∀ m, b ≠ .asset m) :
    Metered s s' b (if b = .manager ∧ s.vault.isPrimaryAsset m then some amount else none) := by
  cases b with
  | manager =>
    by_cases hp : s.vault.isPrimaryAsset m = true
    · rw [if_pos ⟨rfl, hp⟩]
      exact h.primary hp
    · rw [if_neg fun h' => hp h'.2]
      exact (h.secondary hp).1
  | redemption => exact h.redemption
  | externalWithdraw => exact h.externalWithdraw
  | asset m => exact absurd rfl (hb m)
  | userDeposit u => simp [Metered, VaultState.window, h.users]
  | userRedeem u => simp [Metered, VaultState.window, h.users]

/-- **The effect of a venue instruction** on the windows: what it charges, and the listed assets
still hold nothing. -/
theorem execVenue_metered (hs : Unstocked t.core) {i : VenueInstruction}
    (h : execVenue t i = .ok t') :
    Unstocked t'.core ∧
      (∀ b, (∀ m, b ≠ .asset m) → Metered t.core t'.core b (t.charges verify (.venue i) b)) ∧
      ∀ m, t.charges verify (.venue i) (.asset m) = none ∨
        t.charges verify (.venue i) (.asset m) = some 0 := by
  cases i with
  -- the register and the approvals touch no window
  | registerVenue registryAuthority args =>
    obtain ⟨-, -, -, rfl⟩ := registerVenue_iff.1 h
    exact ⟨hs, fun b _ => by cases b <;> rfl, fun _ => .inl rfl⟩
  | setVenueEntryPaused registryAuthority entry paused =>
    obtain ⟨-, e, -, -, rfl⟩ := setVenueEntryPaused_iff.1 h
    exact ⟨hs, fun b _ => by cases b <;> rfl, fun _ => .inl rfl⟩
  | approveVaultVenue authority entry recipientAuthority =>
    obtain ⟨e, h⟩ := approveVaultVenue_iff.1 h
    obtain rfl := h.state
    exact ⟨hs, fun b _ => by cases b <;> rfl, fun _ => .inl rfl⟩
  | removeVaultVenue authority entry =>
    obtain ⟨v, h⟩ := removeVaultVenue_iff.1 h
    obtain rfl := h.state
    exact ⟨hs, fun b _ => by cases b <;> rfl, fun _ => .inl rfl⟩
  | createVenuePosition ctx =>
    obtain ⟨e, v, token, h⟩ := createVenuePosition_iff.1 h
    obtain rfl := h.state
    exact ⟨hs, fun b _ => by cases b <;> rfl, fun _ => .inl rfl⟩
  | deployVenuePosition ctx amount =>
    obtain ⟨p, core, ledger, token, n, h⟩ := deployVenuePosition_iff.1 h
    obtain rfl := h.state
    have hcharge := (accountMovement_metered hs (fun va hva => (Prod.mk.inj hva).1)
      (fun p l => PositionLedger.deploy_nothing) h.charged).withToken token
    refine ⟨hcharge.unstocked, fun b hb => ?_, fun m => ?_⟩
    · have hb' := hcharge.metered b hb
      cases b with
      | asset m => exact absurd rfl (hb m)
      | _ => simpa [ManagedState.charges] using hb'
    · show (if _ then _ else _) = none ∨ (if _ then _ else _) = some 0
      split
      · next hs => exact .inr (congrArg some (hcharge.secondary hs.1).2)
      · exact .inl rfl
  | pullVenuePosition ctx amount =>
    obtain ⟨p, core, ledger, token, n, h⟩ := pullVenuePosition_iff.1 h
    obtain rfl := h.state
    have hcharge := (accountMovement_metered hs (fun va hva => (Prod.mk.inj hva).2)
      (fun p l => PositionLedger.pull_nothing) h.charged).withToken token
    refine ⟨hcharge.unstocked, fun b hb => ?_, fun m => ?_⟩
    · have hb' := hcharge.metered b hb
      cases b with
      | asset m => exact absurd rfl (hb m)
      | _ => simpa [ManagedState.charges] using hb'
    · show (if _ then _ else _) = none ∨ (if _ then _ else _) = some 0
      split
      · next hs => exact .inr (congrArg some (hcharge.secondary hs.1).2)
      · exact .inl rfl
  | removeVenuePosition ctx =>
    obtain ⟨p, asset, v, token, h⟩ := removeVenuePosition_iff.1 h
    obtain rfl := h.state
    exact ⟨hs, fun b _ => by cases b <;> rfl, fun _ => .inl rfl⟩
  -- a withdrawal to a custodian has a window of its own
  | withdrawAssets ctx amount =>
    obtain ⟨asset, e, v, w, token, h⟩ := withdrawAssets_iff.1 h
    have hcharged := h.charged
    simp only [Vault.consumeExternalWithdrawRollingLimit, bind_eq_ok, pure_eq_ok] at hcharged
    obtain ⟨⟨start, used⟩, hconsume, rfl⟩ := hcharged
    obtain rfl := h.state
    refine ⟨hs, fun b hb => ?_, fun _ => .inl rfl⟩
    cases b with
    | externalWithdraw => exact hconsume
    | _ => rfl

/-! ### Every transaction -/

/-- Equal windows and users: nothing was charged. -/
theorem metered_none (hwindows : s'.vault.windows = s.vault.windows)
    (husers : s'.instantUsers = s.instantUsers) (b : RollingBucket) (hb : ∀ m, b ≠ .asset m) :
    Metered s s' b none := by
  obtain ⟨hmanager, hrest⟩ := Prod.mk.inj hwindows
  obtain ⟨hredemption, hexternal⟩ := Prod.mk.inj hrest
  cases b with
  | manager => exact hmanager
  | redemption => exact hredemption
  | externalWithdraw => exact hexternal
  | asset m => exact absurd rfl (hb m)
  | userDeposit u => simp [Metered, VaultState.window, husers]
  | userRedeem u => simp [Metered, VaultState.window, husers]

/-- A managed call charges its limit amount, if it has one, to the manager's window. -/
theorem manageVault_metered (hs : Unstocked t.core) {ctx : ManageVault} {args : ManageVaultArgs}
    {remaining : List PolicyAccountMeta} {effect : Ledger Pubkey → Result (Ledger Pubkey)}
    (h : manageVaultWithMerkleVerification verify t ctx args remaining effect = .ok t') :
    Unstocked t'.core ∧ t'.core.instantUsers = t.core.instantUsers ∧
      t'.core.window .redemption = t.core.window .redemption ∧
      t'.core.window .externalWithdraw = t.core.window .externalWithdraw ∧
      Metered t.core t'.core .manager (t.limitAmount verify ctx args remaining) := by
  obtain ⟨share, policy, v, token, hcheck, -, -, rfl⟩ := manageVault_ok h
  obtain ⟨-, -, hfound, -, limit, hlimit, hv⟩ := checkManagedCall_ok hcheck
  have hcharge : t.limitAmount verify ctx args remaining = limit := by
    simp only [ManagedState.limitAmount, hfound, Option.bind_some, hlimit]
    rfl
  rw [hcharge]
  cases limit with
  | none =>
    obtain rfl := hv
    exact ⟨hs, rfl, rfl, rfl, rfl⟩
  | some amount =>
    simp only [Option.elim_some, Vault.consumeManagerRollingLimit, bind_eq_ok, pure_eq_ok] at hv
    obtain ⟨⟨start, used⟩, hconsume, rfl⟩ := hv
    exact ⟨hs, rfl, rfl, rfl, hconsume⟩

/-- The same for the instructions of the core. -/
theorem exec_metered (hc : t.core.terms.Coherent) (hs : Unstocked t.core) {c : Action}
    (h : exec t.core c = .ok s') :
    Unstocked s' ∧
      ∀ b, (∀ m, b ≠ .asset m) → Metered t.core s' b (t.charges verify (.core c) b) := by
  cases c with
  | request i remaining =>
    -- among the requests only an approval charges, and only of a redemption
    by_cases hi : ∃ ctx args, i = .approveRequest ctx args
    · obtain ⟨ctx, args, rfl⟩ := hi
      obtain ⟨r, hr, hmanager, hexternal, husers, hholdings, hredemption⟩ :=
        approveRequest_metered hc h
      refine ⟨hs.of_holdings hholdings, fun b hb => ?_⟩
      cases b with
      | manager => exact hmanager
      | externalWithdraw => exact hexternal
      | redemption =>
        show Metered _ _ _ ((t.core.requests.lookup ctx.request).bind _)
        rw [hr, Option.bind_some]
        cases ht : r.requestType with
        | deposit =>
          simp only [ht] at hredemption
          exact hredemption
        | redeem =>
          simp only [ht] at hredemption
          exact hredemption
      | asset m => exact absurd rfl (hb m)
      | userDeposit u => show (_ : Window) = _; simp [VaultState.window, husers]
      | userRedeem u => show (_ : Window) = _; simp [VaultState.window, husers]
    · have hkept := execRequest_unmetered h fun ctx args hi' => hi ⟨ctx, args, hi'⟩
      refine ⟨hs.of_holdings hkept.holdings, fun b hb => ?_⟩
      have hnone : t.charges verify (.core (.request i remaining)) b = none := by
        cases i with
        | approveRequest ctx args => exact absurd ⟨ctx, args, rfl⟩ hi
        | _ => rfl
      rw [hnone]
      exact metered_none hkept.windows hkept.users b hb
  | instantDeposit ctx amount remaining =>
    obtain ⟨hwindows, hassets, hothers, hredeem, hdeposit⟩ := instantDeposit_metered h
    refine ⟨hs.of_eq hassets, fun b hb => ?_⟩
    -- an instant deposit charges the user and no window of the vault
    obtain ⟨hmanager, hrest⟩ := Prod.mk.inj hwindows
    obtain ⟨hredemption, hexternal⟩ := Prod.mk.inj hrest
    cases b with
    | manager => exact hmanager
    | redemption => exact hredemption
    | externalWithdraw => exact hexternal
    | asset m => exact absurd rfl (hb m)
    | userDeposit u =>
      show Metered _ _ _ (if ctx.user = u then some amount else none)
      split
      · next hu => exact hu ▸ hdeposit
      · next hu =>
        show (_ : Window) = _
        simp [VaultState.window, hothers u (Ne.symm hu)]
    | userRedeem u =>
      by_cases hu : u = ctx.user
      · exact hu ▸ hredeem
      · show (_ : Window) = _
        simp [VaultState.window, hothers u hu]
  | instantRedeem ctx shares remaining =>
    -- an instant redemption charges the user and the redemption window
    obtain ⟨hmanager, hexternal, hassets, hothers, hdeposit, hredeem, hredemption⟩ :=
      instantRedeem_metered h
    refine ⟨hs.of_eq hassets, fun b hb => ?_⟩
    cases b with
    | manager => exact hmanager
    | redemption => exact hredemption
    | externalWithdraw => exact hexternal
    | asset m => exact absurd rfl (hb m)
    | userDeposit u =>
      by_cases hu : u = ctx.user
      · exact hu ▸ hdeposit
      · show (_ : Window) = _
        simp [VaultState.window, hothers u hu]
    | userRedeem u =>
      show Metered _ _ _ (if ctx.user = u then some shares else none)
      split
      · next hu => exact hu ▸ hredeem
      · next hu =>
        show (_ : Window) = _
        simp [VaultState.window, hothers u (Ne.symm hu)]
  | updateVaultNav authority n remaining =>
    obtain ⟨version, mark, crystallized, tc, token, rfl, -⟩ := updateVaultNav_posted h
    exact ⟨hs, fun b hb => by cases b <;> rfl⟩
  | config i =>
    obtain ⟨hwindows, husers⟩ := (execConfig_configured h).windows
    exact ⟨hs.execConfig h, fun b hb => by
      cases b <;> exact metered_none hwindows husers _ hb⟩
  | world w =>
    obtain ⟨token, clock, rfl, -⟩ := execWorld_outside h
    exact ⟨hs, fun b hb => by cases b <;> rfl⟩

variable {a : ManagedAction}

/-- **Every transaction charges what it is said to**, and no other. -/
theorem execManaged_metered (hc : t.core.terms.Coherent) (hs : Unstocked t.core)
    (h : execManaged verify t a = .ok t') :
    Unstocked t'.core ∧
      (∀ b, (∀ m, b ≠ .asset m) → Metered t.core t'.core b (t.charges verify a b)) ∧
      ∀ m, t.charges verify a (.asset m) = none ∨ t.charges verify a (.asset m) = some 0 := by
  cases a with
  | core c =>
    obtain ⟨s', hs', hpost⟩ := bind_eq_ok.1 h
    obtain rfl := pure_eq_ok.1 hpost
    obtain ⟨hunstocked, hmetered⟩ := exec_metered hc hs hs'
    -- no instruction of the core charges a listed asset
    refine ⟨hunstocked, hmetered, fun m => .inl ?_⟩
    cases c with
    | request i remaining => cases i <;> rfl
    | _ => rfl
  | venue i => exact execVenue_metered hs h
  | policy i =>
    have hcore : t'.core = t.core := execPolicy_core h
    refine ⟨by rwa [hcore], fun b _ => ?_, fun m => .inl rfl⟩
    show t'.core.window b = t.core.window b
    rw [hcore]
  | manageVault ctx args remaining effect =>
    obtain ⟨hunstocked, husers, hredemption, hexternal, hmanager⟩ := manageVault_metered hs h
    refine ⟨hunstocked, fun b hb => ?_, fun m => .inl rfl⟩
    cases b with
    | manager => exact hmanager
    | redemption => exact hredemption
    | externalWithdraw => exact hexternal
    | asset m => exact absurd rfl (hb m)
    | userDeposit u => show (_ : Window) = _; simp [VaultState.window, husers]
    | userRedeem u => show (_ : Window) = _; simp [VaultState.window, husers]

/-! ### Runs -/

variable {b : RollingBucket} {limit width : ℕ}
variable {tr : List (Transition ManagedState ManagedAction)}

/-- Slots do not run backwards. -/
theorem execManaged_slot (h : execManaged verify t a = .ok t') :
    t.core.clock.slot ≤ t'.core.clock.slot := by
  rcases execManaged_core h with ⟨c, -, hc, -⟩ | ⟨-, hidle⟩
  · cases c with
    | request i remaining =>
      obtain ⟨d, hd, -⟩ := execRequest_worked hc
      rw [hd.clock]
    | instantDeposit ctx amount remaining =>
      obtain ⟨net, -, -, hd⟩ := instantDeposit_worked hc
      rw [hd.clock]
    | instantRedeem ctx shares remaining =>
      obtain ⟨gross, hd⟩ := instantRedeem_worked hc
      rw [hd.clock]
    | updateVaultNav authority n remaining =>
      obtain ⟨version, mark, crystallized, tc, token, hpost, -⟩ := updateVaultNav_posted hc
      rw [hpost]
    | config i =>
      have hchange : ∀ c : Change, (t.core.change c).clock = t.core.clock := by
        intro c
        cases c <;> rfl
      have hclock : t'.core.clock = t.core.clock := by
        generalize t'.core = s' at hc
        cases execConfig_configured hc with
        | changed => exact hchange _
        | executed => exact hchange _
        | _ => rfl
      rw [hclock]
    | world w =>
      obtain ⟨token, clock, hpost, hle⟩ := execWorld_outside hc
      rw [hpost]
      exact hle
  · rw [hidle.clock]

theorem slots_past (hr : ManagedRun verify t tr t') :
    ∀ x ∈ tr, x.pre.core.clock.slot ≤ t'.core.clock.slot := by
  have hstep : ∀ x ∈ tr, x.pre.core.clock.slot ≤ x.post.core.clock.slot := fun x hx =>
    execManaged_slot (hr.exec_of_mem hx)
  obtain ⟨-, hpost⟩ := hr.monotone (f := fun t => t.core.clock.slot) hstep
  intro x hx
  exact (hstep x hx).trans (hpost x hx)

/-- The event a transition is for a bucket. -/
def chargeEvent (verify : MerkleCheck) (b : RollingBucket)
    (x : Transition ManagedState ManagedAction) : Event :=
  ⟨x.pre.core.clock.slot, (x.pre.charges verify x.act b).getD 0, (x.post.core.window b).start⟩

/-- No listed asset ever holds anything. -/
theorem ManagedState.IsReachable.unstocked (h : t.IsReachable verify) : Unstocked t.core := by
  have hboth : Tallied t.core ∧ Unstocked t.core := by
    refine Reachable.invariant (I := fun t => Tallied t.core ∧ Unstocked t.core) ?_ ?_ h
    · intro t₀ h₀
      obtain ⟨w, ctx, args, hcreate⟩ := h₀.core
      obtain ⟨-, -, -, hassets, -⟩ := createVault_state hcreate
      refine ⟨h₀.core.tallied, fun m va hva => ?_⟩
      rw [hassets] at hva
      cases hva
    · rintro t a t' ⟨htallied, hunstocked⟩ he
      exact ⟨htallied.execManaged he, (execManaged_metered htallied.coherent hunstocked he).1⟩
  exact hboth.2

/-- **A run is a log** of every bucket of the vault and of the users. -/
theorem run_log (ht : t.IsReachable verify) (hr : ManagedRun verify t tr t') (hlimit : 0 < limit)
    (hb : ∀ m, b ≠ .asset m)
    (hconst : ∀ x ∈ tr, x.pre.core.rollingLimit b = limit ∧
      x.pre.core.vault.rollingLimitWindowSlots = width) :
    Log limit width (t.core.window b) (tr.map (chargeEvent verify b)) (t'.core.window b) := by
  -- induction on the run, from its end: the log grows by the event of the last transition
  induction hr with
  | nil => exact .nil
  | @snoc tr t₁ t₂ a hr he ih =>
    have hreach : t₁.IsReachable verify := Reachable.trans_run ht hr
    obtain ⟨-, hmetered, -⟩ :=
      execManaged_metered hreach.tallied.coherent hreach.unstocked he
    obtain ⟨hlimit₁, hwidth₁⟩ := hconst ⟨t₁, a, t₂⟩ (by simp)
    rw [List.map_append, List.map_singleton]
    refine .snoc (ih fun x hx => hconst x (List.mem_append_left _ hx)) ?_ ?_
    · intro e he'
      -- slots do not run backwards along the run
      obtain ⟨x, hx, rfl⟩ := List.mem_map.1 he'
      exact slots_past hr x hx
    · have hstep := hmetered b hb
      unfold chargeEvent
      -- a transition that charges nothing leaves the window, and one that does consumes it
      cases hcharge : t₁.charges verify a b with
      | none =>
        rw [hcharge] at hstep
        rw [show t₂.core.window b = t₁.core.window b from hstep]
        exact .idle rfl rfl
      | some n =>
        rw [hcharge] at hstep
        have hconsume : Vault.consumeRollingLimit n t₁.core.clock.slot (t₁.core.rollingLimit b)
          t₁.core.vault.rollingLimitWindowSlots (t₁.core.window b).start (t₁.core.window b).used =
            .ok ((t₂.core.window b).start, (t₂.core.window b).used) := hstep
        rw [hlimit₁, hwidth₁] at hconsume
        exact consumeRollingLimit_step hlimit hconsume

/-- What a bucket was charged together by the transitions with the property `p`. -/
def chargedIn (verify : MerkleCheck) (b : RollingBucket)
    (p : Transition ManagedState ManagedAction → Prop) [DecidablePred p]
    (tr : List (Transition ManagedState ManagedAction)) : ℕ :=
  ((tr.filter p).map fun x => (x.pre.charges verify x.act b).getD 0).sum

theorem spent_chargeEvent (q : Event → Prop) [DecidablePred q] :
    spent q (tr.map (chargeEvent verify b)) =
      chargedIn verify b (fun x => q (chargeEvent verify b x)) tr := by
  rw [spent, chargedIn, List.filter_map, List.map_map]
  rfl

/-- **Rolling limits.** In every run from a reachable state, as long as the limit of a bucket and
the width of windows stay what they are, the bucket is charged no more than the limit in one
epoch, and no more than twice the limit in any `width` slots.  An epoch is named by the slot the
window starts at once a transition is done. -/
theorem rolling_limits (ht : t.IsReachable verify) (hr : ManagedRun verify t tr t')
    (hlimit : 0 < limit) (hwidth : 0 < width)
    (hconst : ∀ x ∈ tr, x.pre.core.rollingLimit b = limit ∧
      x.pre.core.vault.rollingLimitWindowSlots = width) :
    (∀ e, chargedIn verify b (fun x => (x.post.core.window b).start = e) tr ≤ limit) ∧
      ∀ w, chargedIn verify b (fun x => w ≤ x.pre.core.clock.slot ∧
        x.pre.core.clock.slot < w + width) tr ≤ 2 * limit := by
  by_cases hb : ∀ m, b ≠ .asset m
  · have hlog := run_log ht hr hlimit hb hconst
    refine ⟨fun e => ?_, fun w => ?_⟩
    · have hle := hlog.epoch_le hwidth e
      rwa [spent_chargeEvent] at hle
    · have hle := (hlog.window hwidth w).1
      rwa [spent_chargeEvent] at hle
  · -- only empty movements are charged to a listed asset
    simp only [not_forall, not_not] at hb
    obtain ⟨m, rfl⟩ := hb
    have hzero : ∀ x ∈ tr, (x.pre.charges verify x.act (.asset m)).getD 0 = 0 := by
      intro x hx
      obtain ⟨tr₁, tr₂, -, hprefix, he⟩ := hr.exists_prefix hx
      have hpre : x.pre.IsReachable verify := Reachable.trans_run ht hprefix
      obtain ⟨-, -, hcharges⟩ :=
        execManaged_metered hpre.tallied.coherent hpre.unstocked he
      rcases hcharges m with h | h <;> rw [h] <;> rfl
    have hnothing : ∀ (p : Transition ManagedState ManagedAction → Prop) [DecidablePred p],
        chargedIn verify (.asset m) p tr = 0 := by
      intro p _
      refine List.sum_eq_zero fun n hn => ?_
      obtain ⟨x, hx, rfl⟩ := List.mem_map.1 hn
      exact hzero x (List.mem_of_mem_filter hx)
    exact ⟨fun e => by rw [hnothing]; exact Nat.zero_le _, fun w => by
      rw [hnothing]; exact Nat.zero_le _⟩

/-! ### Twice the limit -/

namespace Scenario

/-- A vault with 100 assets in the reserve, of which managers may move 50 in a window of 10
slots, and with a venue to move them to. -/
def limitedManager : List ManagedAction :=
  [anyNav, .config (.updateVault curator
      { rollingLimitWindowSlots := some 10, managerRollingLimit := some 50 }),
    start, post 10, deposit 100 senior 200, approve 100 senior .deposit 200 1].map .core ++
    openVenue

/-- Empty the window of the first epoch only at its end, and fill the next one at once. -/
def twoEpochs : List ManagedAction := [deploy 0, waitUntil 10, deploy 50, waitUntil 11, deploy 50]

end Scenario

open Scenario in
/-- **Non-vacuity.** Two epochs meet in the ten slots from slot 10 on, and let out twice the
limit. -/
theorem rolling_limits_twice : ∃ t tr t', ManagedState.IsReachable noCalls t ∧
    ManagedRun noCalls t tr t' ∧
    chargedIn noCalls .manager (fun x => 10 ≤ x.pre.core.clock.slot ∧
      x.pre.core.clock.slot < 10 + 10) tr = 100 ∧ 100 ≤ 2 * 50 := by
  obtain ⟨t, tr, t', ht, hr, -, h⟩ := exists_managed_run_from limitedManager twoEpochs
    (fun _ tr _ => tr.all (fun x => x.pre.core.rollingLimit .manager = 50 ∧
        x.pre.core.vault.rollingLimitWindowSlots = 10) &&
      chargedIn noCalls .manager (fun x => 10 ≤ x.pre.core.clock.slot ∧
        x.pre.core.clock.slot < 10 + 10) tr = 100) (by decide +kernel)
  simp only [Bool.and_eq_true, List.all_eq_true, decide_eq_true_eq] at h
  obtain ⟨hconst, hcharged⟩ := h
  have hle := (rolling_limits ht hr (by decide) (by decide) hconst).2 10
  rw [hcharged] at hle
  exact ⟨t, tr, t', ht, hr, hcharged, hle⟩

end AsyncVault
