/-
AsyncVault/Timelock.lean

The timelock has no bypass.

What a timelock guards is read off the state (`ManagedState.guarded`): the fields
the source classifies as timelocked, every extension apart from its queue
counters, and what each strategy policy permits.  The four queues of changes are
read as one.

A step under a timelock that changes something guarded executes a queued change,
or is one of four exceptions (`Excepted`).  And a change that waits in a queue
came there by a step of the run, has not left it since, and carries the slot and
the curator of that step; this is traced back along the run.
-/
import AsyncVault.PolicyVersions

namespace AsyncVault

open Checked Function Machine

variable {s s' s₀ sₙ : ManagedState} {c c' : VaultState} {verify : MerkleCheck}
variable {a : ManagedAction} {strategist account : Pubkey}
variable {t : Transition ManagedState ManagedAction}
variable {tr : List (Transition ManagedState ManagedAction)}

/-! ### What a timelock guards -/

/-- The values of the fields that `hasTimelockedFields` looks for. -/
def Vault.timelockedFields (v : Vault) : UpdateVaultArgs where
  feeRecipient := some v.feeRecipient
  manager := some v.manager
  hotManager := some v.hotManager
  fulfiller := some v.fulfiller
  navMode := some v.navMode
  requireFreshNav := some v.requireFreshNav
  maxNavDeltaBps := some v.maxNavDeltaBps
  maxImpliedApyBps := some v.maxImpliedApyBps
  maxNavStalenessSlots := some v.maxNavStalenessSlots
  depositCap := some v.depositCap
  rollingLimitWindowSlots := some v.rollingLimitWindowSlots
  managerRollingLimit := some v.managerRollingLimit
  externalWithdrawRollingLimit := some v.externalWithdrawRollingLimit
  redemptionRollingLimit := some v.redemptionRollingLimit
  timelockDelaySlots := some v.timelockDelaySlots
  performanceFeeBps := some v.performanceFeeBps
  performanceFeeCrystallizationIntervalSeconds :=
    some v.performanceFeeCrystallizationIntervalSeconds
  protocolFeeBps := some v.protocolFeeBps
  protocolFeeRecipient := some v.protocolFeeRecipient
  instantRedemptionFeeBps := some v.instantRedemptionFeeBps

/-- What a timelock guards of a vault, its extensions and its policies; a policy permits what
its root commits to unless it is paused. -/
@[ext] structure Guarded where
  fields : UpdateVaultArgs
  extensions : VaultExtensions
  permits : Pubkey → Option (BitVec 256 × Bool)

def StrategyPolicy.permits (p : StrategyPolicy) : BitVec 256 × Bool := (p.merkleRoot, p.paused)

def ManagedState.guarded (s : ManagedState) : Guarded where
  fields := s.core.vault.timelockedFields
  extensions := s.core.extensions.unqueued
  permits k := (s.policies k).map StrategyPolicy.permits

/-- An update without timelocked fields changes none. -/
theorem timelockedFields_withArgs {v : Vault} {args : UpdateVaultArgs}
    (h : args.hasTimelockedFields = false) :
    (v.withArgs args).timelockedFields = v.timelockedFields := by
  simp only [UpdateVaultArgs.hasTimelockedFields, Bool.or_eq_false_iff, Option.isSome_eq_false_iff,
    Option.isNone_iff_eq_none] at h
  simp [Vault.timelockedFields, Vault.withArgs, h]

/-! ### The queues as one -/

/-- A change that can wait in one of the four queues. -/
inductive ManagedChange
  | core (c : Change)
  | policy (strategist : Pubkey) (args : StrategyPolicyUpdateArgs)

inductive QueueKind
  | core (kind : ChangeKind)
  | policy

/-- The state with a change made. -/
def ManagedState.change (s : ManagedState) : ManagedChange → ManagedState
  | .core c => { s with core := s.core.change c }
  | .policy k args => s.withPolicy k ((s.policies k).map fun p => p.updated args)

def PendingStrategyPolicyUpdate.pendingUpdate (p : PendingStrategyPolicyUpdate) :
    PendingUpdate ManagedChange :=
  ⟨p.vault, p.queuedBy, p.createdSlot, p.etaSlot, .policy p.strategyPolicy p.args⟩

def ManagedState.pending (s : ManagedState) :
    QueueKind → Pubkey → Option (PendingUpdate ManagedChange)
  | .core kind, k => (s.core.pending kind k).map (.map .core)
  | .policy, k => (s.pendingPolicyUpdates k).map PendingStrategyPolicyUpdate.pendingUpdate

namespace ManagedAction

/-- The signer, the queue, the account and the change of an action that queues one. -/
def queues : ManagedAction → Option (Pubkey × QueueKind × Pubkey × ManagedChange)
  | .core (.config i) =>
    i.queues.map fun (authority, kind, k, c) => (authority, .core kind, k, .core c)
  | .policy (.queueStrategyPolicyUpdate authority strategist k args) =>
    some (authority, .policy, k, .policy strategist args)
  | _ => none

/-- The queue and the account of the change an action executes. -/
def executes : ManagedAction → Option (QueueKind × Pubkey)
  | .core (.config i) => i.executes.map fun (kind, k) => (.core kind, k)
  | .policy (.executeStrategyPolicyUpdate _ _ k) => some (.policy, k)
  | _ => none

end ManagedAction

/-! ### Steps that change something guarded -/

/-- The changes that need no queue: handing over the roles of the authority, and creating,
closing or pausing a policy. -/
inductive Excepted (s : ManagedState) : ManagedAction → Guarded → Prop
  | accepted {newAuthority} {replace : Pubkey → Pubkey}
      (replaces : ∀ role, replace role = if role = s.core.vault.authority then newAuthority
        else role) :
      Excepted s (.core (.config (.acceptAuthorityInvitation newAuthority)))
        { s.guarded with fields := { s.guarded.fields with
          manager := some (replace s.core.vault.manager)
          hotManager := some (replace s.core.vault.hotManager)
          fulfiller := some (replace s.core.vault.fulfiller) } }
  | created {authority strategist} (fresh : s.policies strategist = none) :
      Excepted s (.policy (.initializeStrategyPolicy authority strategist))
        { s.guarded with permits := update s.guarded.permits strategist (some (0, true)) }
  | closed {authority strategist} :
      Excepted s (.policy (.closeStrategyPolicy authority strategist))
        { s.guarded with permits := update s.guarded.permits strategist none }
  | paused {authority strategist p} (found : s.policies strategist = some p) :
      Excepted s (.policy (.pauseStrategyPolicy authority strategist))
        { s.guarded with
          permits := update s.guarded.permits strategist (some (p.merkleRoot, true)) }

/-- The action executes a queued change whose time has come and whose queuer is the curator. -/
def Executes (s : ManagedState) (a : ManagedAction) (s' : ManagedState) : Prop :=
  ∃ kind account p, a.executes = some (kind, account) ∧ s.pending kind account = some p ∧
    p.etaSlot ≤ s.core.clock.slot ∧ p.queuedBy = s.core.vault.curator ∧
    s'.guarded = (s.change p.args).guarded

theorem guarded_of_operated (h : Operated s.core s'.core) (hp : s'.policies = s.policies) :
    s'.guarded = s.guarded := by
  refine Guarded.ext ?_ h.extensions ?_
  · show s'.core.vault.settings.timelockedFields = s.core.vault.settings.timelockedFields
    rw [h.settings]
  · show (fun k => (s'.policies k).map _) = fun k => (s.policies k).map _
    rw [hp]

theorem guarded_withPolicy (k : Pubkey) (p : Option StrategyPolicy) :
    (s.withPolicy k p).guarded =
      { s.guarded with permits := update s.guarded.permits k (p.map StrategyPolicy.permits) } := by
  refine Guarded.ext rfl rfl ?_
  funext k'
  by_cases hk : k' = k
  · subst hk
    simp [ManagedState.guarded, ManagedState.withPolicy]
  · simp [ManagedState.guarded, ManagedState.withPolicy, hk]

/-- **Under a timelock** a configuration step of an initialised vault changes nothing guarded,
hands over the roles of the authority, or executes a queued change. -/
theorem Configured.guarded {i : ConfigInstruction} (h : Configured s.core i c)
    (hinit : s.core.vault.initialized = true) (hdelay : 0 < s.core.vault.timelockDelaySlots) :
    ({ s with core := c } : ManagedState).guarded = s.guarded ∨
      Excepted s (.core (.config i)) ({ s with core := c } : ManagedState).guarded ∨
      Executes s (.core (.config i)) { s with core := c } := by
  have hno : ¬s.core.vault.initialized = false := by simp [hinit]
  cases h with
  | started uninitialized => exact absurd uninitialized hno
  | divided uninitialized => exact absurd uninitialized hno
  | extended uninitialized => exact absurd uninitialized hno
  | @changed _ _ c _ _ allowed =>
    cases c with
    | vault args =>
      exact .inl (Guarded.ext (timelockedFields_withArgs (allowed hdelay)) rfl rfl)
    | fee args => exact (allowed hdelay).elim
    | extension args => exact (allowed hdelay).elim
  | @executed _ kind account p _ _ _ executes found ready queuer =>
    refine .inr (.inr ⟨.core kind, account, p.map .core, ?_, ?_, ready, queuer, ?_⟩)
    · simp [ManagedAction.executes, executes]
    · simp [ManagedState.pending, found]
    · rfl
  | accepted replaces => exact .inr (.inl (.accepted replaces))
  | _ => exact .inl rfl

/-- The same of a policy step. -/
theorem PolicyMoved.guarded {i : PolicyInstruction} (h : PolicyMoved s i s')
    (hdelay : 0 < s.core.vault.timelockDelaySlots) :
    s'.guarded = s.guarded ∨ Excepted s (.policy i) s'.guarded ∨ Executes s (.policy i) s' := by
  cases h with
  | created fresh =>
    rw [guarded_withPolicy]
    exact .inr (.inl (.created fresh))
  -- an update without the queue needs a delay of zero
  | updated _ free => exact absurd free hdelay.ne'
  | queued => exact .inl rfl
  -- the root of the policy and its pause become those of the queued update
  | @executed _ k account p pending found queued target ready queuer =>
    refine .inr (.inr ⟨.policy, account, pending.pendingUpdate, rfl, ?_, ready, queuer, ?_⟩)
    · simp [ManagedState.pending, queued]
    · subst target
      simp only [PendingStrategyPolicyUpdate.pendingUpdate, ManagedState.change, found]
      rfl
  | canceled => exact .inl rfl
  | @paused authority k p found =>
    rw [guarded_withPolicy]
    have hpaused : Excepted s (.policy (.pauseStrategyPolicy authority k)) { s.guarded with
        permits := update s.guarded.permits k (some (p.merkleRoot, true)) } := .paused found
    exact .inr (.inl hpaused)
  | closed =>
    rw [guarded_withPolicy]
    exact .inr (.inl .closed)

/-- **A step under a timelock.** -/
theorem execManaged_guarded (h : execManaged verify s a = .ok s')
    (hinit : s.core.vault.initialized = true) (hdelay : 0 < s.core.vault.timelockDelaySlots) :
    s'.guarded = s.guarded ∨ Excepted s a s'.guarded ∨ Executes s a s' := by
  rcases execManaged_policies h with ⟨i, rfl, hmoved⟩ | ⟨-, hpolicies, -⟩
  · exact hmoved.guarded hdelay
  -- the rest of the program leaves the policies alone
  rcases execManaged_core h with ⟨b, rfl, hb, hs'⟩ | ⟨-, hidle⟩
  · cases b with
    | request i remaining =>
      obtain ⟨d, hd, -⟩ := execRequest_worked hb
      exact .inl (guarded_of_operated hd.toOperated hpolicies)
    | instantDeposit ctx amount remaining =>
      obtain ⟨net, -, -, hd⟩ := instantDeposit_worked hb
      exact .inl (guarded_of_operated hd.toOperated hpolicies)
    | instantRedeem ctx shares remaining =>
      obtain ⟨gross, hd⟩ := instantRedeem_worked hb
      exact .inl (guarded_of_operated hd.toOperated hpolicies)
    | updateVaultNav authority u remaining =>
      obtain ⟨version, mark, crystallized, tc, token, hcore, -⟩ := updateVaultNav_posted hb
      rw [hs', hcore]
      exact .inl rfl
    -- of the core, only the configuration writes a guarded field
    | config i =>
      rw [hs']
      exact (execConfig_configured hb).guarded hinit hdelay
    | world w =>
      obtain ⟨token, clock, hcore, -⟩ := execWorld_outside hb
      rw [hs', hcore]
      exact .inl rfl
  · exact .inl (guarded_of_operated hidle.toOperated hpolicies)

/-! ### Where queued changes come from -/

/-- The action queues the change: it is signed by the curator, and carries the slot and the
delay of the state. -/
structure QueuedNow (s : ManagedState) (a : ManagedAction) (kind : QueueKind) (account : Pubkey)
    (p : PendingUpdate ManagedChange) : Prop where
  queues : a.queues = some (s.core.vault.curator, kind, account, p.args)
  curator : p.queuedBy = s.core.vault.curator
  eta : p.etaSlot = s.core.clock.slot + s.core.vault.timelockDelaySlots
  delayed : 0 < s.core.vault.timelockDelaySlots

theorem pending_of_operated (h : Operated c c') : c'.pending = c.pending := by
  funext kind k
  cases kind <;> simp only [VaultState.pending, h.vaultUpdates, h.feeUpdates, h.extensionUpdates]

/-- What a configuration step leaves in a queue was there, or is queued by it. -/
theorem Configured.pending {i : ConfigInstruction} {kind : ChangeKind} {p : PendingUpdate Change}
    (h : Configured s.core i c) (hp : c.pending kind account = some p) :
    s.core.pending kind account = some p ∨
      QueuedNow s (.core (.config i)) (.core kind) account (p.map .core) := by
  -- a change writes no queue
  have hchange : ∀ c : Change, (s.core.change c).pending = s.core.pending := by
    intro c
    cases c <;> rfl
  cases h with
  | changed =>
    rw [hchange] at hp
    exact .inl hp
  | @queued _ authority kind' k change _ _ _ queues curator delayed _ pending =>
    rw [pending, setPending] at hp
    split at hp
    · next hk =>
      obtain ⟨rfl, rfl⟩ := hk
      obtain rfl := Option.some.inj hp
      refine .inr ⟨?_, curator, rfl, delayed⟩
      rw [← curator, ManagedAction.queues, queues]
      rfl
    · exact .inl hp
  -- an execution empties the account it executes
  | @executed _ _ _ q vault fee extension _ _ _ _ pending =>
    have hqueues : ((s.core.change q.args).withQueues vault fee extension).pending =
        (s.core.withQueues vault fee extension).pending := by
      funext kind k
      cases kind <;> rfl
    rw [hqueues, pending, setPending] at hp
    split at hp
    · cases hp
    · exact .inl hp
  | canceled _ pending =>
    rw [pending, setPending] at hp
    split at hp
    · cases hp
    · exact .inl hp
  | _ => exact .inl hp

/-- The same of a policy step. -/
theorem PolicyMoved.pending {i : PolicyInstruction} {p : PendingStrategyPolicyUpdate}
    (h : PolicyMoved s i s') (hp : s'.pendingPolicyUpdates account = some p) :
    s.pendingPolicyUpdates account = some p ∨
      QueuedNow s (.policy i) .policy account p.pendingUpdate := by
  -- each step writes one account of the queue
  have hother : ∀ {s : ManagedState} {k : Pubkey} {p : Option PendingStrategyPolicyUpdate},
      (s.withPendingPolicy k p).pendingPolicyUpdates account =
        if account = k then p else s.pendingPolicyUpdates account := update_apply _ _ _ _
  cases h with
  | queued _ curator delayed =>
    rw [hother] at hp
    split at hp
    · next hk =>
      subst hk
      obtain rfl := Option.some.inj hp
      exact .inr ⟨by rw [← curator]; rfl, curator, rfl, delayed⟩
    · exact .inl hp
  | executed =>
    rw [hother] at hp
    split at hp
    · cases hp
    · exact .inl hp
  | canceled =>
    rw [hother] at hp
    split at hp
    · cases hp
    · exact .inl hp
  | _ => exact .inl hp

/-- A change that waits after a step waited before it, or is queued by it. -/
theorem pending_step {kind : QueueKind} {p : PendingUpdate ManagedChange}
    (h : execManaged verify s a = .ok s') (hp : s'.pending kind account = some p) :
    s.pending kind account = some p ∨ QueuedNow s a kind account p := by
  cases kind with
  | core kind =>
    obtain ⟨q, hq, rfl⟩ := Option.map_eq_some_iff.1 hp
    have hkept : s'.core.pending = s.core.pending →
      s.pending (.core kind) account = some (q.map .core) := by
      intro hkept
      rw [hkept] at hq
      simp [ManagedState.pending, hq]
    -- the queues of the core: only its configuration writes them
    rcases execManaged_core h with ⟨b, rfl, hb, -⟩ | ⟨-, hidle⟩
    · cases b with
      | request i remaining =>
        obtain ⟨d, hd, -⟩ := execRequest_worked hb
        exact .inl (hkept (pending_of_operated hd.toOperated))
      | instantDeposit ctx amount remaining =>
        obtain ⟨net, -, -, hd⟩ := instantDeposit_worked hb
        exact .inl (hkept (pending_of_operated hd.toOperated))
      | instantRedeem ctx shares remaining =>
        obtain ⟨gross, hd⟩ := instantRedeem_worked hb
        exact .inl (hkept (pending_of_operated hd.toOperated))
      | updateVaultNav authority u remaining =>
        obtain ⟨version, mark, crystallized, tc, token, hcore, -⟩ := updateVaultNav_posted hb
        exact .inl (hkept (by rw [hcore]; rfl))
      | config i =>
        rcases (execConfig_configured hb).pending hq with hq | hqueued
        · exact .inl (by simp [ManagedState.pending, hq])
        · exact .inr hqueued
      | world w =>
        obtain ⟨token, clock, hcore, -⟩ := execWorld_outside hb
        exact .inl (hkept (by rw [hcore]; rfl))
    · exact .inl (hkept (pending_of_operated hidle.toOperated))
  | policy =>
    obtain ⟨q, hq, rfl⟩ := Option.map_eq_some_iff.1 hp
    -- the queue of the policies
    rcases execManaged_policies h with ⟨i, rfl, hmoved⟩ | ⟨-, -, hpending⟩
    · rcases hmoved.pending hq with hq | hqueued
      · exact .inl (by simp [ManagedState.pending, hq])
      · exact .inr hqueued
    · rw [hpending] at hq
      exact .inl (by simp [ManagedState.pending, hq])

/-- What an execution consumes is gone. -/
theorem pending_executes {kind : QueueKind} (h : execManaged verify s a = .ok s')
    (he : a.executes = some (kind, account)) :
    (s.pending kind account).isSome ∧ s'.pending kind account = none := by
  -- only a configuration and a policy instruction execute a queued change
  cases a with
  | core b =>
    cases b with
    | config i =>
      obtain ⟨⟨kind', k⟩, hi, hk⟩ := Option.map_eq_some_iff.1 he
      obtain ⟨rfl, rfl⟩ := Prod.mk.inj hk
      simp only [execManaged, exec, bind_eq_ok, pure_eq_ok] at h
      obtain ⟨c, hc, rfl⟩ := h
      obtain ⟨hsome, hnone⟩ := execConfig_executes hc hi
      simpa [ManagedState.pending] using And.intro hsome hnone
    | _ => cases he
  | policy i =>
    have hmoved := execPolicy_moved h
    cases i with
    | executeStrategyPolicyUpdate executor strategist k =>
      obtain ⟨rfl, rfl⟩ := Prod.mk.inj (Option.some.inj he)
      cases hmoved with
      | executed _ queued =>
        simp [ManagedState.pending, ManagedState.withPendingPolicy, queued]
    | _ => cases he
  | _ => cases he

/-! ### Over runs -/

/-- The curator queued the change before, under a delay that has passed, and it has waited
since. -/
def Due (tr : List (Transition ManagedState ManagedAction)) (s : ManagedState) (kind : QueueKind)
    (account : Pubkey) (c : ManagedChange) : Prop :=
  ∃ before q since, tr = before ++ q :: since ∧
    q.act.queues = some (s.core.vault.curator, kind, account, c) ∧
    0 < q.pre.core.vault.timelockDelaySlots ∧
    q.pre.core.clock.slot + q.pre.core.vault.timelockDelaySlots ≤ s.core.clock.slot ∧
    ∀ t ∈ since, (t.post.pending kind account).isSome

theorem ManagedState.Created.pending (h : s.Created) (kind : QueueKind) (account : Pubkey) :
    s.pending kind account = none := by
  obtain ⟨⟨w, ctx, args, hs⟩, -, -, -, hpolicies⟩ := h
  have hcore : ∀ kind k, s.core.pending kind k = none := by
    obtain ⟨_, _, _, token, -, hs⟩ := createVault_iff.1 hs
    intro kind k
    rw [hs]
    cases kind <;> rfl
  cases kind with
  | core kind => simp [ManagedState.pending, hcore]
  | policy => simp [ManagedState.pending, hpolicies]

/-- **Queued changes are due** when they are executed. -/
theorem due_of_run {kind : QueueKind} {p : PendingUpdate ManagedChange} (h₀ : s₀.Created)
    (hrun : ManagedRun verify s₀ tr s) (hp : s.pending kind account = some p)
    (hready : p.etaSlot ≤ s.core.clock.slot) (hqueuer : p.queuedBy = s.core.vault.curator) :
    Due tr s kind account p.args := by
  obtain ⟨before, q, since, rfl, hpre, hpost, hheld⟩ := hrun.exists_since
    (P := fun s => s.pending kind account = some p) (by simp [h₀.pending]) hp
  obtain ⟨-, he, -⟩ := hrun.of_transition
  rcases pending_step he hpost with hpre' | hqueued
  · exact absurd hpre' hpre
  · refine ⟨before, q, since, rfl, ?_, hqueued.delayed, ?_, fun t ht => by simp [hheld t ht]⟩
    · rw [hqueued.queues, ← hqueued.curator, hqueuer]
    · rw [← hqueued.eta]
      exact hready

/-- **No timelock bypass.** In every run of a vault, a step that changes something guarded
while the vault is initialised and a delay is set is excepted, or executes a change that is due;
and between two executions from one account something is queued in it. -/
theorem no_timelock_bypass (h₀ : s₀.Created) (hrun : ManagedRun verify s₀ tr sₙ) :
    (∀ before t after, tr = before ++ t :: after → t.pre.core.vault.initialized = true →
      0 < t.pre.core.vault.timelockDelaySlots → t.post.guarded ≠ t.pre.guarded →
      Excepted t.pre t.act t.post.guarded ∨
        ∃ kind account c, t.act.executes = some (kind, account) ∧
          Due before t.pre kind account c ∧ t.post.guarded = (t.pre.change c).guarded) ∧
    ∀ before t since t' after kind account, tr = before ++ t :: (since ++ t' :: after) →
      t.act.executes = some (kind, account) → t'.act.executes = some (kind, account) →
      ∃ q ∈ since, ∃ authority c, q.act.queues = some (authority, kind, account, c) := by
  constructor
  · rintro before t after rfl hinit hdelay hchanged
    obtain ⟨hbefore, he, -⟩ := hrun.of_transition
    rcases execManaged_guarded he hinit hdelay with hkept | hexcepted | hexecutes
    · exact absurd hkept hchanged
    · exact .inl hexcepted
    · obtain ⟨kind, account, p, hact, hp, hready, hqueuer, hguarded⟩ := hexecutes
      exact .inr ⟨kind, account, p.args, hact, due_of_run h₀ hbefore hp hready hqueuer, hguarded⟩
  · rintro before t since t' after kind account rfl ht ht'
    obtain ⟨-, he, hafter⟩ := hrun.of_transition
    obtain ⟨hsince, he', -⟩ := hafter.of_transition
    -- the first execution empties the account, the second one finds it filled
    obtain ⟨-, hnone⟩ := pending_executes he ht
    obtain ⟨p, hp⟩ := Option.isSome_iff_exists.1 (pending_executes he' ht').1
    obtain ⟨l, q, r, rfl, hpre, hpost, -⟩ := hsince.exists_since
      (P := fun s => s.pending kind account = some p) (by simp [hnone]) hp
    obtain ⟨-, heq, -⟩ := hsince.of_transition
    rcases pending_step heq hpost with hpre' | hqueued
    · exact absurd hpre' hpre
    · exact ⟨q, by simp, _, _, hqueued.queues⟩

open Scenario in
/-- **Non-vacuity.** A new fee recipient is queued under a delay of ten slots, and takes over
when they have passed. -/
theorem no_timelock_bypass_waited :
    ∃ s₀ before t c, ManagedState.Created s₀ ∧
      ManagedRun noCalls s₀ (before ++ [t]) t.post ∧
      t.post.core.vault.feeRecipient ≠ t.pre.core.vault.feeRecipient ∧
      Due before t.pre (.core .vault) (address 71) c ∧
        t.post.guarded = (t.pre.change c).guarded := by
  obtain ⟨s₀, tr, s, h₀, hrun, hacts, hp⟩ := exists_managed_run
    ([.core start, delayChanges 10,
      .core (.config (.queueVaultUpdate curator (address 71) { feeRecipient := some user })),
      waitUntil 11] ++ [.core (.config (.executeVaultUpdate user (address 71)))])
    (fun tr _ => tr.getLast?.any fun t => t.pre.core.vault.initialized ∧
      0 < t.pre.core.vault.timelockDelaySlots ∧
      t.post.core.vault.feeRecipient ≠ t.pre.core.vault.feeRecipient) (by decide +kernel)
  obtain ⟨before, last, rfl, -, hlast⟩ := List.map_eq_append_iff.1 hacts
  obtain ⟨t, rfl, hact⟩ := List.map_eq_singleton_iff.1 hlast
  obtain ⟨hinit, hdelay, hrecipient⟩ : _ ∧ _ ∧ _ := by simpa using hp
  have hchanged : t.post.guarded ≠ t.pre.guarded := by
    intro h
    have hfields := congrArg (fun g : Guarded => g.fields.feeRecipient) h
    exact hrecipient (Option.some.inj hfields)
  have hrun' : ManagedRun noCalls s₀ (before ++ [t]) t.post := by
    obtain ⟨hbefore, he, -⟩ := hrun.of_transition
    exact hbefore.snoc he
  rcases (no_timelock_bypass h₀ hrun).1 before t [] rfl hinit hdelay hchanged with
    hexcepted | ⟨kind, account, c, hexecutes, hdue, hguarded⟩
  · rw [hact] at hexcepted
    cases hexcepted
  · rw [hact] at hexecutes
    obtain ⟨rfl, rfl⟩ := Prod.mk.inj (Option.some.inj hexecutes)
    exact ⟨s₀, before, t, c, h₀, hrun', hrecipient, hdue, hguarded⟩

end AsyncVault
