/-
AsyncVault/PolicyVersions.lean

Which queued updates of a strategy policy are stale.

Every update and every emergency pause of a policy raises its version, and a
queued update executes only at the version it was queued at.  So an update that
executes has not been overtaken, as long as the policy account lives: versions
only rise (`Overtaken`).  But a policy that is created again at the same address
starts at version zero, and what was queued for the old one at that version
executes on the new one.
-/
import AsyncVault.ManagedSteps
import AsyncVault.ManagedScenario
import Mathlib.Order.WithBot

namespace AsyncVault

open Checked Function Machine

variable {s s' s₀ : ManagedState} {verify : MerkleCheck} {strategist account : Pubkey}
variable {a : ManagedAction} {q e : Transition ManagedState ManagedAction}
variable {tr mid : List (Transition ManagedState ManagedAction)}

/-! ### Versions -/

/-- The action updates, pauses or closes the policy of a strategist. -/
def ManagedAction.Overtakes (strategist : Pubkey) : ManagedAction → Prop
  | .policy (.updateStrategyPolicy _ p _) => p = strategist
  | .policy (.executeStrategyPolicyUpdate _ p _) => p = strategist
  | .policy (.pauseStrategyPolicy _ p) => p = strategist
  | .policy (.closeStrategyPolicy _ p) => p = strategist
  | _ => False

/-- The action creates the policy of a strategist. -/
def ManagedAction.Creates (strategist : Pubkey) : ManagedAction → Prop
  | .policy (.initializeStrategyPolicy _ p) => p = strategist
  | _ => False

theorem policies_withPolicy {p : Option StrategyPolicy} {k : Pubkey} :
    (s.withPolicy k p).policies strategist =
      if strategist = k then p else s.policies strategist :=
  update_apply _ _ _ _

variable (strategist) in
/-- **What an action does to one policy**: create it where there is none, overtake it, or leave
it. -/
theorem policy_step (h : execManaged verify s a = .ok s') :
    (a.Creates strategist ∧ s.policies strategist = none) ∨
      (a.Overtakes strategist ∧ ∃ p, s.policies strategist = some p ∧
        ∀ p' ∈ s'.policies strategist, p'.version = p.version + 1) ∨
      (¬a.Creates strategist ∧ ¬a.Overtakes strategist ∧
        s'.policies strategist = s.policies strategist) := by
  rcases execManaged_policies h with ⟨i, rfl, hmoved⟩ | ⟨hact, hpolicies, -⟩
  · -- a policy of another strategist is not touched
    have hother : ∀ {k : Pubkey} {p : Option StrategyPolicy}, k ≠ strategist →
        (s.withPolicy k p).policies strategist = s.policies strategist :=
      fun hk => by rw [policies_withPolicy, if_neg hk.symm]
    -- a policy that is overtaken gets the next version, or goes
    have hraised : ∀ {k : Pubkey} {p : StrategyPolicy} {p' : Option StrategyPolicy},
        s.policies k = some p → (∀ q ∈ p', q.version = p.version + 1) → k = strategist →
        ∃ p, s.policies strategist = some p ∧
          ∀ q ∈ (s.withPolicy k p').policies strategist, q.version = p.version + 1 := by
      rintro k p p' hp hp' rfl
      exact ⟨p, hp, by rwa [policies_withPolicy, if_pos rfl]⟩
    cases hmoved with
    | @created _ k fresh =>
      by_cases hk : k = strategist
      · exact .inl ⟨hk, hk ▸ fresh⟩
      · exact .inr (.inr ⟨hk, id, hother hk⟩)
    | @updated _ k _ _ found =>
      by_cases hk : k = strategist
      · exact .inr (.inl ⟨hk, hraised found (by rintro _ ⟨⟩; rfl) hk⟩)
      · exact .inr (.inr ⟨id, hk, hother hk⟩)
    | queued => exact .inr (.inr ⟨id, id, rfl⟩)
    | @executed _ k _ _ _ found =>
      by_cases hk : k = strategist
      · exact .inr (.inl ⟨hk, hraised found (by rintro _ ⟨⟩; rfl) hk⟩)
      · exact .inr (.inr ⟨id, hk, hother hk⟩)
    | canceled => exact .inr (.inr ⟨id, id, rfl⟩)
    | @paused _ k _ found =>
      by_cases hk : k = strategist
      · exact .inr (.inl ⟨hk, hraised found (by rintro _ ⟨⟩; rfl) hk⟩)
      · exact .inr (.inr ⟨id, hk, hother hk⟩)
    | @closed _ k _ found =>
      by_cases hk : k = strategist
      · exact .inr (.inl ⟨hk, hraised found (by rintro _ ⟨⟩) hk⟩)
      · exact .inr (.inr ⟨id, hk, hother hk⟩)
  · refine .inr (.inr ⟨?_, ?_, congrFun hpolicies _⟩)
    all_goals
      intro hc
      cases a with
      | policy i => exact hact i rfl
      | _ => exact hc

/-- The version of a strategist's policy; above all versions when there is none. -/
def ManagedState.policyVersion (s : ManagedState) (strategist : Pubkey) : WithTop ℕ :=
  match s.policies strategist with
  | some p => p.version
  | none => ⊤

theorem policyVersion_of_some {p : StrategyPolicy} (h : s.policies strategist = some p) :
    s.policyVersion strategist = p.version := by
  rw [ManagedState.policyVersion, h]

theorem policyVersion_of_none (h : s.policies strategist = none) :
    s.policyVersion strategist = ⊤ := by
  rw [ManagedState.policyVersion, h]

theorem policyVersion_congr (h : s'.policies strategist = s.policies strategist) :
    s'.policyVersion strategist = s.policyVersion strategist := by
  rw [ManagedState.policyVersion, ManagedState.policyVersion, h]

/-- An action that overtakes a policy raises its version. -/
theorem policyVersion_lt (h : execManaged verify s a = .ok s') (ho : a.Overtakes strategist)
    (hc : ¬a.Creates strategist) : s.policyVersion strategist < s'.policyVersion strategist := by
  rcases policy_step strategist h with ⟨hc', -⟩ | ⟨-, p, hp, hraised⟩ | ⟨-, ho', -⟩
  · exact absurd hc' hc
  · rw [policyVersion_of_some hp]
    cases hp' : s'.policies strategist with
    | none =>
      rw [policyVersion_of_none hp']
      exact WithTop.coe_lt_top _
    | some p' =>
      rw [policyVersion_of_some hp', hraised p' hp']
      exact WithTop.coe_lt_coe.2 (Nat.lt_succ_self _)
  · exact absurd ho ho'

/-- **Versions rise** unless the policy is created. -/
theorem policyVersion_le (h : execManaged verify s a = .ok s') (hc : ¬a.Creates strategist) :
    s.policyVersion strategist ≤ s'.policyVersion strategist := by
  by_cases ho : a.Overtakes strategist
  · exact (policyVersion_lt h ho hc).le
  · rcases policy_step strategist h with ⟨hc', -⟩ | ⟨ho', -⟩ | ⟨-, -, hsame⟩
    · exact absurd hc' hc
    · exact absurd ho' ho
    · exact (policyVersion_congr hsame).ge

/-! ### Queued updates in a run -/

/-- A queued update waits in its account until the account is closed. -/
theorem pendingPolicy_kept {pending : PendingStrategyPolicyUpdate}
    (h : execManaged verify s a = .ok s') (hp : s.pendingPolicyUpdates account = some pending)
    (hheld : (s'.pendingPolicyUpdates account).isSome) :
    s'.pendingPolicyUpdates account = some pending := by
  have hother : ∀ {k : Pubkey} {p : Option PendingStrategyPolicyUpdate},
      (s.withPendingPolicy k p).pendingPolicyUpdates account =
        if account = k then p else s.pendingPolicyUpdates account := update_apply _ _ _ _
  rcases execManaged_policies h with ⟨i, rfl, hmoved⟩ | ⟨-, -, hpending⟩
  · cases hmoved with
    | @queued _ _ k _ _ _ _ _ free =>
      have hk : account ≠ k := fun hk => by rw [← hk, hp] at free; cases free
      rw [hother, if_neg hk, hp]
    | @executed _ _ k =>
      have hk : account ≠ k := fun hk => by subst hk; simp [ManagedState.withPendingPolicy] at hheld
      exact (update_of_ne hk _ _).trans hp
    | @canceled _ k =>
      have hk : account ≠ k := fun hk => by subst hk; simp [ManagedState.withPendingPolicy] at hheld
      rw [hother, if_neg hk, hp]
    | _ => exact hp
  · rw [hpending, hp]

/-- What is queued carries the version of the policy. -/
theorem queued_version {authority : Pubkey} {args : StrategyPolicyUpdateArgs}
    (h : execManaged verify s (.policy
      (.queueStrategyPolicyUpdate authority strategist account args)) = .ok s') :
    ∃ p pending, s'.policies strategist = some p ∧
      s'.pendingPolicyUpdates account = some pending ∧ pending.strategyPolicy = strategist ∧
      pending.expectedVersion = p.version := by
  have hmoved := execPolicy_moved
    (i := .queueStrategyPolicyUpdate authority strategist account args) h
  cases hmoved with
  | queued found => exact ⟨_, _, found, update_self _ _ _, rfl, rfl⟩

/-- What is executed carries the version of the policy. -/
theorem executed_version {executor : Pubkey}
    (h : execManaged verify s (.policy
      (.executeStrategyPolicyUpdate executor strategist account)) = .ok s') :
    ∃ p pending, s.policies strategist = some p ∧
      s.pendingPolicyUpdates account = some pending ∧ pending.strategyPolicy = strategist ∧
      pending.expectedVersion = p.version := by
  have hmoved := execPolicy_moved (i := .executeStrategyPolicyUpdate executor strategist account) h
  cases hmoved with
  | executed found queued target _ _ version => exact ⟨_, _, found, queued, target, version.symm⟩

/-- A queued update is still the same when it is executed. -/
theorem pendingPolicy_of_run {pending : PendingStrategyPolicyUpdate}
    (hrun : ManagedRun verify s₀ tr s) (hp : s₀.pendingPolicyUpdates account = some pending)
    (hheld : ∀ t ∈ tr, (t.post.pendingPolicyUpdates account).isSome) :
    s.pendingPolicyUpdates account = some pending :=
  hrun.invariant_of_forall
    (I := fun s => s.pendingPolicyUpdates account = some pending)
    (Q := fun t => (t.post.pendingPolicyUpdates account).isSome)
    (fun _ _ _ hp hheld he => pendingPolicy_kept he hp hheld) hheld hp

/-- A policy that no step overtakes is never created. -/
theorem policy_of_run {p : StrategyPolicy} (hrun : ManagedRun verify s₀ tr s)
    (hp : s₀.policies strategist = some p) (hfresh : ∀ t ∈ tr, ¬t.act.Overtakes strategist) :
    s.policies strategist = some p :=
  hrun.invariant_of_forall (I := fun s => s.policies strategist = some p)
    (Q := fun t => ¬t.act.Overtakes strategist)
    (fun _ _ _ hp ho he => by
      rcases policy_step strategist he with ⟨-, hnone⟩ | ⟨ho', -⟩ | ⟨-, -, hsame⟩
      · rw [hp] at hnone
        cases hnone
      · exact absurd ho' ho
      · rw [hsame, hp]) hfresh hp

/-- **Stale updates of a policy.** In every run, from any state, a queued update that is
executed has not been overtaken since it was queued, exactly when the policy has not been
created again in between. -/
theorem not_overtaken_iff {authority executor strategist' : Pubkey}
    {args : StrategyPolicyUpdateArgs} (hrun : ManagedRun verify s₀ (tr ++ q :: (mid ++ [e])) s)
    (hq : q.act = .policy (.queueStrategyPolicyUpdate authority strategist account args))
    (he : e.act = .policy (.executeStrategyPolicyUpdate executor strategist' account))
    (hheld : ∀ t ∈ mid, (t.post.pendingPolicyUpdates account).isSome) :
    (∀ t ∈ mid, ¬t.act.Overtakes strategist) ↔ ∀ t ∈ mid, ¬t.act.Creates strategist := by
  obtain ⟨-, hexecq, hrun⟩ := hrun.of_transition
  obtain ⟨hmid, hexece, -⟩ := hrun.of_transition
  rw [hq] at hexecq
  rw [he] at hexece
  obtain ⟨p, pending, hp, hpending, htarget, hversion⟩ := queued_version hexecq
  obtain ⟨p', pending', hp', hpending', htarget', hversion'⟩ := executed_version hexece
  -- the update that executes is the one that was queued
  obtain rfl : pending = pending' :=
    Option.some.inj ((pendingPolicy_of_run hmid hpending hheld).symm.trans hpending')
  obtain rfl : strategist = strategist' := htarget.symm.trans htarget'
  constructor
  · intro hfresh t ht hc
    obtain ⟨l, r, rfl⟩ := List.append_of_mem ht
    obtain ⟨hl, hexect, -⟩ := hmid.of_transition
    have hsome := policy_of_run hl hp fun t ht => hfresh t (List.mem_append_left _ ht)
    rcases policy_step strategist hexect with ⟨-, hnone⟩ | ⟨ho, -⟩ | ⟨hc', -⟩
    · rw [hsome] at hnone
      cases hnone
    · exact hfresh t ht ho
    · exact hc' hc
  · intro hlives t ht ho
    -- versions rise from the queueing to the step, over it, and up to the execution
    obtain ⟨l, r, rfl⟩ := List.append_of_mem ht
    obtain ⟨hl, hexect, hr⟩ := hmid.of_transition
    have hbefore := (hl.monotone (f := fun s => s.policyVersion strategist) fun t ht =>
      policyVersion_le (hl.exec_of_mem ht) (hlives t (List.mem_append_left _ ht))).1
    have hafter := (hr.monotone (f := fun s => s.policyVersion strategist) fun t ht =>
      policyVersion_le (hr.exec_of_mem ht)
        (hlives t (List.mem_append_right _ (List.mem_cons_of_mem _ ht)))).1
    have hlt := (hbefore.trans_lt (policyVersion_lt hexect ho (hlives t ‹_›))).trans_le hafter
    rw [policyVersion_of_some hp, policyVersion_of_some hp', ← hversion, ← hversion'] at hlt
    exact lt_irrefl _ hlt

/-! ### A policy created again -/

section Scenario

open Scenario

/-- The user's policy at version zero, under a delay of ten slots. -/
def newPolicy : List ManagedAction :=
  [.core start, delayChanges 10, .policy (.initializeStrategyPolicy curator user)]

def queueRoot : ManagedAction :=
  .policy (.queueStrategyPolicyUpdate curator user (address 70) ⟨7, false⟩)

def executeRoot : ManagedAction :=
  .policy (.executeStrategyPolicyUpdate curator user (address 70))

/-- A run that queues a root, takes the given actions, and executes what it has queued. -/
theorem exists_root_run (between : List ManagedAction) (p : ManagedState → Bool)
    (h : managedPasses newPolicy (fun _ s =>
      plays (execManaged noCalls) s (queueRoot :: (between ++ [executeRoot])) fun tr s' =>
        tr.tail.dropLast.all (fun t => (t.post.pendingPolicyUpdates (address 70)).isSome) ∧
          p s') = true) :
    ∃ s q mid e s', ManagedState.IsReachable noCalls s ∧
      ManagedRun noCalls s (q :: (mid ++ [e])) s' ∧ q.act = queueRoot ∧ e.act = executeRoot ∧
      mid.map Transition.act = between ∧
      (∀ t ∈ mid, (t.post.pendingPolicyUpdates (address 70)).isSome) ∧ p s' = true := by
  obtain ⟨s, tr, s', hs, hrun, hacts, hp⟩ := exists_managed_run_from newPolicy _
    (fun _ tr s' => decide (tr.tail.dropLast.all
      (fun t => (t.post.pendingPolicyUpdates (address 70)).isSome) ∧ p s')) h
  obtain ⟨hheld, hend⟩ := of_decide_eq_true hp
  obtain ⟨q, rest, rfl, hq, hrest⟩ := List.map_eq_cons_iff.1 hacts
  obtain ⟨mid, last, rfl, hmid, hlast⟩ := List.map_eq_append_iff.1 hrest
  obtain ⟨e, rfl, he⟩ := List.map_eq_singleton_iff.1 hlast
  refine ⟨s, q, mid, e, s', hs, hrun, hq, he, hmid, ?_, hend⟩
  simpa using hheld

/-- **Non-vacuity.** A root is queued, and executed when its time has come. -/
theorem not_overtaken_iff_waited :
    ∃ s q mid e s', ManagedState.IsReachable noCalls s ∧
      ManagedRun noCalls s (q :: (mid ++ [e])) s' ∧ q.act = queueRoot ∧ e.act = executeRoot ∧
      mid.map Transition.act = [waitUntil 11] ∧ ∀ t ∈ mid, ¬t.act.Overtakes user := by
  obtain ⟨s, q, mid, e, s', hs, hrun, hq, he, hmid, hheld, -⟩ :=
    exists_root_run [waitUntil 11] (fun _ => true) (by decide +kernel)
  have hcreates : ∀ t ∈ mid, ¬t.act.Creates user := by
    intro t ht
    obtain ⟨t', rfl, hact⟩ := List.map_eq_singleton_iff.1 hmid
    rw [List.mem_singleton.1 ht, hact]
    exact id
  have hfrom : ManagedRun noCalls s ([] ++ q :: (mid ++ [e])) s' := hrun
  exact ⟨s, q, mid, e, s', hs, hrun, hq, he, hmid,
    (not_overtaken_iff hfrom hq he hheld).2 hcreates⟩

/-- **A removal forgets the stop.** A root is queued; then the policy is paused, closed and
created again, and the root still executes. -/
theorem overtaken_executes :
    ∃ s q mid e s', ManagedState.IsReachable noCalls s ∧
      ManagedRun noCalls s (q :: (mid ++ [e])) s' ∧ q.act = queueRoot ∧ e.act = executeRoot ∧
      (∀ t ∈ mid, (t.post.pendingPolicyUpdates (address 70)).isSome) ∧
      mid.map Transition.act = [.policy (.pauseStrategyPolicy curator user),
        .policy (.closeStrategyPolicy curator user),
        .policy (.initializeStrategyPolicy curator user), waitUntil 11] ∧
      (s'.policies user).map (fun p => (p.merkleRoot, p.paused)) = some (7, false) := by
  obtain ⟨s, q, mid, e, s', hs, hrun, hq, he, hmid, hheld, hp⟩ := exists_root_run
    [.policy (.pauseStrategyPolicy curator user), .policy (.closeStrategyPolicy curator user),
      .policy (.initializeStrategyPolicy curator user), waitUntil 11]
    (fun s' => (s'.policies user).map (fun p => (p.merkleRoot, p.paused)) = some (7, false))
    (by decide +kernel)
  exact ⟨s, q, mid, e, s', hs, hrun, hq, he, hheld, hmid, of_decide_eq_true hp⟩

end Scenario

end AsyncVault
