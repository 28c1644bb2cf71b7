/-
AsyncVault/UpdateValidation.lean

An update is queued exactly when it could be executed.

Two checks guard a change of the configuration.  One looks at the given fields,
before anything is written, and takes the missing ones from the vault where a
rule spans several; the other looks at the whole vault afterwards.  On a vault
whose own configuration is accepted they agree (`supported_iff_apply`), and
every vault of a run is one (`IsReachable.configValid`).
-/
import AsyncVault.Operations
import AsyncVault.Scenario

namespace AsyncVault

open Checked TokenLedger Function Machine Scenario

variable {s s' : VaultState} {v v' : Vault} {args : UpdateVaultArgs}

/-! ### What the rules read -/

/-- The fields of a vault that the rules of a configuration read. -/
@[ext] structure Ruled where
  maxNavDeltaBps : ℕ
  performanceFeeBps : ℕ
  protocolFeeBps : ℕ
  instantRedemptionFeeBps : ℕ
  navMode : NavMode
  trancheConfig : Option Pubkey
  protocolFeeRecipient : Pubkey
  rollingLimitWindowSlots : ℕ
  managerRollingLimit : ℕ
  externalWithdrawRollingLimit : ℕ
  redemptionRollingLimit : ℕ

def Vault.ruled (v : Vault) : Ruled where
  maxNavDeltaBps := v.maxNavDeltaBps
  performanceFeeBps := v.performanceFeeBps
  protocolFeeBps := v.protocolFeeBps
  instantRedemptionFeeBps := v.instantRedemptionFeeBps
  navMode := v.navMode
  trancheConfig := v.trancheConfig
  protocolFeeRecipient := v.protocolFeeRecipient
  rollingLimitWindowSlots := v.rollingLimitWindowSlots
  managerRollingLimit := v.managerRollingLimit
  externalWithdrawRollingLimit := v.externalWithdrawRollingLimit
  redemptionRollingLimit := v.redemptionRollingLimit

/-- An update that gives none of these fields. -/
structure UpdateVaultArgs.Unruled (args : UpdateVaultArgs) : Prop where
  maxNavDeltaBps : args.maxNavDeltaBps = none
  performanceFeeBps : args.performanceFeeBps = none
  protocolFeeBps : args.protocolFeeBps = none
  instantRedemptionFeeBps : args.instantRedemptionFeeBps = none
  navMode : args.navMode = none
  protocolFeeRecipient : args.protocolFeeRecipient = none
  rollingLimitWindowSlots : args.rollingLimitWindowSlots = none
  managerRollingLimit : args.managerRollingLimit = none
  externalWithdrawRollingLimit : args.externalWithdrawRollingLimit = none
  redemptionRollingLimit : args.redemptionRollingLimit = none

theorem Vault.ConfigValid.congr (h : v'.ruled = v.ruled) (hv : v.ConfigValid) :
    v'.ConfigValid := by
  simp only [Vault.ruled, Ruled.mk.injEq] at h
  obtain ⟨hdelta, hperformance, hprotocol, hinstant, hmode, htranche, hrecipient, hwindow,
    hmanager, hexternal, hredemption⟩ := h
  constructor
  · rw [hdelta]; exact hv.navDelta
  · rw [hperformance]; exact hv.performanceFee
  · rw [hprotocol]; exact hv.protocolFee
  · rw [hinstant]; exact hv.instantFee
  · rw [hmode]; exact hv.signed
  · rw [htranche, hperformance]; exact hv.tranche
  · rw [hprotocol, hrecipient]; exact hv.recipient
  · rw [hwindow, hmanager, hexternal, hredemption]; exact hv.limits

theorem ruled_withArgs (h : v'.ruled = v.ruled) (args : UpdateVaultArgs) :
    (v'.withArgs args).ruled = (v.withArgs args).ruled := by
  simp only [Vault.ruled, Ruled.mk.injEq] at h
  obtain ⟨hdelta, hperformance, hprotocol, hinstant, hmode, htranche, hrecipient, hwindow,
    hmanager, hexternal, hredemption⟩ := h
  simp only [Vault.ruled, Vault.withArgs, hdelta, hperformance, hprotocol, hinstant, hmode,
    htranche, hrecipient, hwindow, hmanager, hexternal, hredemption]

theorem ruled_withArgs_of_unruled (h : args.Unruled) (v : Vault) :
    (v.withArgs args).ruled = v.ruled := by
  obtain ⟨hdelta, hperformance, hprotocol, hinstant, hmode, hrecipient, hwindow, hmanager,
    hexternal, hredemption⟩ := h
  simp only [Vault.ruled, Vault.withArgs, hdelta, hperformance, hprotocol, hinstant, hmode,
    hrecipient, hwindow, hmanager, hexternal, hredemption, Option.getD_none]

theorem ruled_of_settings (h : v'.settings = v.settings) : v'.ruled = v.ruled := by
  show v'.settings.ruled = v.settings.ruled
  rw [h]

/-! ### The two checks -/

/-- Checking a field where it is given is checking the value it will have. -/
theorem forall_mem_iff_getD {α : Type} {P : α → Prop} {x : α} (hx : P x) (o : Option α) :
    (∀ y ∈ o, P y) ↔ P (o.getD x) := by
  cases o with
  | none => exact ⟨fun _ => hx, fun _ _ hy => (Option.not_mem_none _ hy).elim⟩
  | some y => exact ⟨fun h => h y rfl, fun h z hz => Option.mem_some.1 hz ▸ h⟩

/-- On an accepted configuration, the check of the given fields is the check of the vault they
lead to. -/
theorem validateUpdateArgsSupported_eq_ok (hv : v.ConfigValid) {u : Unit} :
    validateUpdateArgsSupported v args = .ok u ↔ (v.withArgs args).ConfigValid := by
  have hbps : ∀ (o : Option ℕ) {x : ℕ}, x ≤ maxBps →
      ((∀ bps ∈ o, bps ≤ maxBps) ↔ o.getD x ≤ maxBps) :=
    fun o x hx => forall_mem_iff_getD (P := fun bps => bps ≤ maxBps) hx o
  have hmode : (∀ mode ∈ args.navMode, mode = .authoritySigned) ↔
      args.navMode.getD v.navMode = .authoritySigned :=
    forall_mem_iff_getD (P := fun mode => mode = .authoritySigned) hv.signed args.navMode
  simp only [validateUpdateArgsSupported, bind_eq_ok, ensure_eq_ok, exists_const,
    hbps args.maxNavDeltaBps hv.navDelta, hbps args.performanceFeeBps hv.performanceFee,
    hbps args.protocolFeeBps hv.protocolFee]
  constructor
  · rintro ⟨hdelta, hperformance, hprotocol, h⟩
    -- the recipient is looked at only where a protocol fee is charged
    split at h
    · next hfee =>
      simp only [bind_eq_ok, ensure_eq_ok, exists_const,
        hbps args.instantRedemptionFeeBps hv.instantFee, hmode] at h
      obtain ⟨hrecipient, hinstant, hsigned, htranche, hlimits⟩ := h
      exact ⟨hdelta, hperformance, hprotocol, hinstant, hsigned, htranche, fun _ => hrecipient,
        hlimits⟩
    · next hfee =>
      simp only [bind_eq_ok, ensure_eq_ok, exists_const,
        hbps args.instantRedemptionFeeBps hv.instantFee, hmode] at h
      obtain ⟨hinstant, hsigned, htranche, hlimits⟩ := h
      exact ⟨hdelta, hperformance, hprotocol, hinstant, hsigned, htranche,
        fun hpos => absurd hpos hfee, hlimits⟩
  · rintro ⟨hdelta, hperformance, hprotocol, hinstant, hsigned, htranche, hrecipient, hlimits⟩
    refine ⟨hdelta, hperformance, hprotocol, ?_⟩
    split
    · next hfee =>
      simp only [bind_eq_ok, ensure_eq_ok, exists_const,
        hbps args.instantRedemptionFeeBps hv.instantFee, hmode]
      exact ⟨hrecipient hfee, hinstant, hsigned, htranche, hlimits⟩
    · simp only [bind_eq_ok, ensure_eq_ok, exists_const,
        hbps args.instantRedemptionFeeBps hv.instantFee, hmode]
      exact ⟨hinstant, hsigned, htranche, hlimits⟩

/-- The two checks accept the same updates. -/
theorem supported_iff_apply (hv : v.ConfigValid) (args : UpdateVaultArgs) :
    validateUpdateArgsSupported v args = .ok () ↔ ∃ v', applyVaultUpdate v args = .ok v' := by
  rw [validateUpdateArgsSupported_eq_ok hv]
  simp only [applyVaultUpdate_eq_ok, exists_and_left, exists_eq, and_true]

/-! ### Every vault of a run is accepted -/

theorem configValid_initialVault (ctx : CreateVault) (args : AsyncVaultArgs) :
    (initialVault ctx args).ConfigValid :=
  ⟨Nat.zero_le _, Nat.zero_le _, Nat.zero_le _, Nat.zero_le _, rfl, .inl rfl,
    fun h => absurd h (lt_irrefl 0), .inr ⟨rfl, rfl, rfl⟩⟩

/-- Configuration keeps the configuration accepted. -/
theorem Configured.configValid {i : ConfigInstruction} (h : Configured s i s')
    (hv : s.vault.ConfigValid) : s'.vault.ConfigValid := by
  have hchange : ∀ c : Change, s.Accepts c → (s.change c).vault.ConfigValid := by
    intro c haccepted
    cases c with
    | vault args => exact haccepted
    | fee args => exact hv
    | extension args => exact hv
  cases h with
  | divided _ _ unpaid => exact { hv with tranche := .inr unpaid }
  | extended _ _ fee =>
    exact { hv with instantFee := fee.elim (fun hkept => hkept ▸ hv.instantFee) id }
  | changed _ _ _ accepted => exact hchange _ accepted
  | executed _ _ _ _ _ accepted => exact hchange _ accepted
  -- all the others leave what the rules read
  | _ =>
    refine hv.congr ?_
    rfl

/-- Every action keeps the configuration accepted. -/
theorem exec_valid {a : Action} (h : exec s a = .ok s') (hv : s.vault.ConfigValid) :
    s'.vault.ConfigValid := by
  cases a with
  | request i remaining =>
    obtain ⟨d, hd, -⟩ := execRequest_worked h
    exact hv.congr (ruled_of_settings hd.settings)
  | instantDeposit ctx amount remaining =>
    obtain ⟨net, -, -, hd⟩ := instantDeposit_worked h
    exact hv.congr (ruled_of_settings hd.settings)
  | instantRedeem ctx shares remaining =>
    obtain ⟨gross, hd⟩ := instantRedeem_worked h
    exact hv.congr (ruled_of_settings hd.settings)
  | updateVaultNav authority u remaining =>
    obtain ⟨version, mark, crystallized, tc, token, rfl, -⟩ := updateVaultNav_posted h
    refine hv.congr ?_
    rfl
  | config i => exact (execConfig_configured h).configValid hv
  | world w =>
    obtain ⟨token, clock, rfl, -⟩ := execWorld_outside h
    exact hv

/-- Every vault of a run has an accepted configuration. -/
theorem VaultState.IsReachable.configValid (hs : s.IsReachable) : s.vault.ConfigValid := by
  refine Reachable.invariant (I := fun s => s.vault.ConfigValid) ?_ ?_ hs
  · rintro s₀ ⟨w, ctx, args, h⟩
    obtain ⟨_, _, _, token, -, rfl⟩ := createVault_iff.1 h
    exact configValid_initialVault ctx args
  · intro s a s' hv h
    exact exec_valid h hv

/-! ### Queueing and execution -/

theorem validateQueuedVaultUpdate_supported {u : Unit}
    (h : validateQueuedVaultUpdate v args = .ok u) :
    validateUpdateArgsSupported v args = .ok () := by
  simp only [validateQueuedVaultUpdate, bind_eq_ok] at h
  obtain ⟨-, -, -, -, h⟩ := h
  exact h

/-- Whether an update may be queued depends on the vault through the fields of the rules. -/
theorem validateQueuedVaultUpdate_congr (hv : v.ConfigValid) (hr : v'.ruled = v.ruled)
    (h : validateQueuedVaultUpdate v args = .ok ()) :
    validateQueuedVaultUpdate v' args = .ok () := by
  have hv' := hv.congr hr
  simp only [validateQueuedVaultUpdate, bind_eq_ok, ensure_eq_ok, exists_const] at h ⊢
  obtain ⟨hfields, hbreaker, h⟩ := h
  rw [validateUpdateArgsSupported_eq_ok hv] at h
  refine ⟨hfields, hbreaker, ?_⟩
  rw [validateUpdateArgsSupported_eq_ok hv']
  exact h.congr (ruled_withArgs hr args)

/-- An update that was queued is executed when its time has come, if the fields of the rules
are still the same. -/
theorem executeVaultUpdate_of_ruled (hv : v.ConfigValid)
    (hqueue : validateQueuedVaultUpdate v args = .ok ()) {executor account : Pubkey}
    (hr : s'.vault.ruled = v.ruled)
    (hchecks : executeChecks s' executor (s'.pendingVaultUpdates account) = .ok args) :
    ∃ s'', executeVaultUpdate s' executor account = .ok s'' := by
  have hqueue' := validateQueuedVaultUpdate_congr hv hr hqueue
  obtain ⟨v', happly⟩ := (supported_iff_apply (hv.congr hr) args).1
    (validateQueuedVaultUpdate_supported hqueue')
  refine ⟨{ s' with
    vault := v'
    pendingVaultUpdates := update s'.pendingVaultUpdates account none }, ?_⟩
  simp only [executeVaultUpdate, bind_eq_ok, pure_eq_ok]
  exact ⟨args, hchecks, (), hqueue', v', happly, rfl⟩

/-- **Queueing accepts exactly the updates that execution accepts.**  Every vault of a run has
an accepted configuration, the two checks agree on it for every update, and what an update
leaves is accepted again.  So a queued update fails only if a field of the rules changed, and
no update stands in the way of one that gives none of these fields. -/
theorem update_validation {s : VaultState} (hs : s.IsReachable) :
    s.vault.validateConfig = .ok () ∧
      ∀ args : UpdateVaultArgs,
        (validateUpdateArgsSupported s.vault args = .ok () ↔
          ∃ v, applyVaultUpdate s.vault args = .ok v) ∧
        (∀ v, applyVaultUpdate s.vault args = .ok v → v.validateConfig = .ok () ∧
          ∀ args' : UpdateVaultArgs, args'.Unruled → ∃ v', applyVaultUpdate v args' = .ok v') ∧
        (validateQueuedVaultUpdate s.vault args = .ok () →
          ∀ (s' : VaultState) (executor account : Pubkey), s'.vault.ruled = s.vault.ruled →
            executeChecks s' executor (s'.pendingVaultUpdates account) = .ok args →
            ∃ s'', executeVaultUpdate s' executor account = .ok s'') := by
  have hv := hs.configValid
  refine ⟨Vault.validateConfig_eq_ok.2 hv, fun args => ⟨supported_iff_apply hv args, ?_, ?_⟩⟩
  · intro v happly
    obtain ⟨hvalid, rfl⟩ := applyVaultUpdate_eq_ok.1 happly
    refine ⟨Vault.validateConfig_eq_ok.2 hvalid, fun args' hargs' =>
      ⟨(s.vault.withArgs args).withArgs args', ?_⟩⟩
    exact applyVaultUpdate_eq_ok.2 ⟨hvalid.congr (ruled_withArgs_of_unruled hargs' _), rfl⟩
  · intro hqueue s' executor account hr hchecks
    exact executeVaultUpdate_of_ruled hv hqueue hr hchecks

/-- A split vault under a timelock that charges a protocol fee and limits redemptions, with
an update waiting. -/
def limitedVault : List Action :=
  twoTranches ++ [
    .config (.updateVault curator
      { rollingLimitWindowSlots := some 100, redemptionRollingLimit := some 50,
        protocolFeeBps := some 20, protocolFeeRecipient := some user,
        timelockDelaySlots := some 1 }),
    .config (.queueVaultUpdate curator (address 60) { redemptionRollingLimit := some 70 }),
    wait 100]

/-- **Non-vacuity.**  Such a vault accepts a new limit, refuses to give up the window, the
recipient of its fee or its waiver of the performance fee, and the waiting update is ready. -/
theorem update_validation_limited :
    ∃ s : VaultState, s.IsReachable ∧ s.vault.validateConfig = .ok () ∧
      (∃ v, applyVaultUpdate s.vault { redemptionRollingLimit := some 70 } = .ok v) ∧
      (∃ s'', executeVaultUpdate s curator (address 60) = .ok s'') ∧
      ¬(∃ v, applyVaultUpdate s.vault { rollingLimitWindowSlots := some 0 } = .ok v) ∧
      ¬(∃ v, applyVaultUpdate s.vault { protocolFeeRecipient := some Pubkey.default } = .ok v) ∧
      ¬∃ v, applyVaultUpdate s.vault { performanceFeeBps := some 1 } = .ok v := by
  -- one run decides the checks; what they accept or refuse follows from the general theorem
  obtain ⟨-, s, hs, h⟩ := exists_reachable 0 0 limitedVault (fun _ s =>
    (validateUpdateArgsSupported s.vault { redemptionRollingLimit := some 70 }).isOk &&
      (executeChecks s curator (s.pendingVaultUpdates (address 60)) >>= fun args =>
        validateQueuedVaultUpdate s.vault args).isOk &&
      !(validateUpdateArgsSupported s.vault { rollingLimitWindowSlots := some 0 }).isOk &&
      !(validateUpdateArgsSupported s.vault
        { protocolFeeRecipient := some Pubkey.default }).isOk &&
      !(validateUpdateArgsSupported s.vault { performanceFeeBps := some 1 }).isOk)
    (by decide +kernel)
  simp only [Bool.and_eq_true, Bool.not_eq_true', ← Bool.not_eq_true, isOk_iff, bind_eq_ok] at h
  obtain ⟨⟨⟨⟨⟨_, hlimit⟩, _, args, hchecks, hqueue⟩, hwindow⟩, hrecipient⟩, hperformance⟩ := h
  obtain ⟨hvalid, hupdates⟩ := update_validation hs
  have hrefused : ∀ args, (¬∃ u, validateUpdateArgsSupported s.vault args = .ok u) →
      ¬∃ v, applyVaultUpdate s.vault args = .ok v :=
    fun args hno happly => hno ⟨(), (hupdates args).1.2 happly⟩
  exact ⟨s, hs, hvalid, (hupdates _).1.1 hlimit,
    (hupdates args).2.2 hqueue s curator (address 60) rfl hchecks, hrefused _ hwindow,
    hrefused _ hrecipient, hrefused _ hperformance⟩

end AsyncVault
