/-
AsyncVault/Lanes.lean

FIFO lanes lose and reorder nothing.

The requests of a lane that have not been processed hold the ids between the two
counters of its queue, each id once; this is `TicketLane.Ordered` of the lane.
A request instruction enters one request, lets the one that is next leave, or
moves nobody (`LaneMove`): cancelling a queued request keeps its place, and
cancelling for good or claiming concerns requests without one.

The counters wrap at 64 bits, so a run may open fewer than `2 ^ 64` requests in a
lane; the total of a queue is the number of requests opened in it.
-/
import AsyncVault.ManagedSteps
import AsyncVault.ManagedScenario
import AsyncVault.Lib.TicketLane

namespace AsyncVault

open Checked TokenLedger KeyedStore TicketLane Function Machine

variable {s s' : VaultState} {d d' : Docket} {i : RequestInstruction}
variable {k m : Pubkey} {ty : RequestType} {r r' : Request} {q q' : FifoQueue}

/-! ### Places -/

namespace Docket

theorem place_unprocessed (h : d.InLane m ty r) (hr : r.Unprocessed) :
    d.place m ty r = some (r.queueId ty) :=
  if_pos ⟨h, hr⟩

theorem place_other (h : ¬d.InLane m ty r) : d.place m ty r = none := if_neg fun h' => h h'.1

theorem place_processed (h : ¬r.Unprocessed) : d.place m ty r = none := if_neg fun h' => h h'.2

theorem waiting_of_lookup (h : d.requests.lookup k = some r) :
    d.waiting m ty k = d.place m ty r := by
  rw [waiting, h]
  rfl

theorem waiting_of_fresh (h : d.requests.lookup k = none) : d.waiting m ty k = none := by
  rw [waiting, h]
  rfl

theorem place_congr (htranched : d'.tranched = d.tranched) : d'.place m ty = d.place m ty := by
  funext r
  have hin : d'.InLane m ty r ↔ d.InLane m ty r := by simp only [InLane, htranched]
  exact if_congr (and_congr_left' hin) rfl rfl

/-- Storing a request puts it in its place. -/
theorem waiting_insert {e : Docket} {y : RequestType}
    (hrequests : e.requests = d.requests.insert k r) (htranched : e.tranched = d.tranched) :
    e.waiting m y = update (d.waiting m y) k (d.place m y r) := by
  funext k'
  rw [waiting, hrequests, place_congr htranched, update_apply]
  split
  · next hk => rw [hk, AList.lookup_insert]; rfl
  · next hk => rw [AList.lookup_insert_ne hk]; rfl

/-- Closing a request gives its place up. -/
theorem waiting_erase (hrequests : d'.requests = d.requests.erase k)
    (htranched : d'.tranched = d.tranched) :
    d'.waiting m ty = update (d.waiting m ty) k none := by
  funext k'
  rw [waiting, hrequests, place_congr htranched, update_apply]
  split
  · next hk => rw [hk, AList.lookup_erase]; rfl
  · next hk => rw [AList.lookup_erase_ne hk]; rfl

theorem waiting_congr (hrequests : d'.requests = d.requests)
    (htranched : d'.tranched = d.tranched) :
    d'.waiting m ty = d.waiting m ty := by
  funext k
  rw [waiting, waiting, hrequests, place_congr htranched]

/-- The lanes of a plain vault do not depend on the share mint. -/
def Uniform (d : Docket) : Prop :=
  d.tranched = false → ∀ m m' t, d.lane m t = d.lane m' t

theorem Uniform.lane_eq (hd : d.Uniform) (h : d.InLane m ty r) :
    d.lane r.shareMintAddress r.requestType = d.lane m ty := by
  obtain ⟨rfl, hm⟩ := h
  cases ht : d.tranched with
  | false => exact hd ht _ _ _
  | true => rw [hm ht]

theorem setLane_self (h : d.InLane m ty r) :
    d.setLane r.shareMintAddress r.requestType q m ty = some q := by
  rw [setLane, if_pos ⟨h.1.symm, fun ht => (h.2 ht).symm⟩]

theorem setLane_other (h : ¬d.InLane m ty r) :
    d.setLane r.shareMintAddress r.requestType q m ty = d.lane m ty := by
  rw [setLane, if_neg fun h' => h ⟨h'.1.symm, fun ht => (h'.2 ht).symm⟩]

end Docket

theorem docket_uniform (s : VaultState) : s.docket.Uniform := by
  intro h m m' t
  have hplain : s.vault.trancheConfig = none := by simpa [VaultState.docket] using h
  rw [lane_plain hplain, lane_plain hplain]

/-! ### Moves in a lane -/

/-- What a request instruction does to a lane with the queue `q`. -/
inductive LaneMove (d : Docket) (i : RequestInstruction) (d' : Docket) (m : Pubkey)
    (ty : RequestType) (q : FifoQueue) : Prop
  | kept (lane : d'.lane m ty = some q) (waiting : d'.waiting m ty = d.waiting m ty)
  | entered {k : Pubkey} (opens : i.opens = some (k, ty)) (fresh : d.waiting m ty k = none)
      (lane : d'.lane m ty = some { q with total := q.total + 1 })
      (waiting : d'.waiting m ty = update (d.waiting m ty) k (some (some (q.total + 1))))
  | left {k : Pubkey} (processes : i.processes = some k)
      (next : d.waiting m ty k = some (some (q.lastProcessed + 1)))
      (lane : d'.lane m ty = some { q with lastProcessed := q.lastProcessed + 1 })
      (waiting : d'.waiting m ty = update (d.waiting m ty) k none)

/-- The id of a request that waits and may be processed is the one after the last. -/
theorem expected_eq (hord : Ordered (d.waiting m ty) q.lastProcessed q.total)
    (hwaits : d.waiting m ty k = some (some q.expected)) : q.expected = q.lastProcessed + 1 := by
  have hlt := (hord.bounds hwaits).1
  have hmod : q.expected < u64 := Nat.mod_lt _ (by decide)
  unfold FifoQueue.expected at hlt hmod ⊢
  exact Nat.mod_eq_of_lt (by omega)

/-- Processing a request lets it leave its lane. -/
theorem laneMove_of_dequeue {lane : Lanes} (hd : d.Uniform)
    (hord : Ordered (d.waiting m ty) q.lastProcessed q.total) (hq : d.lane m ty = some q)
    (hr : d.requests.lookup k = some r) (hwaits : r.Unprocessed)
    (hdequeue : d.dequeue r = some lane) (hi : i.processes = some k) (hlane : d'.lane = lane)
    (hwaiting : d'.waiting m ty = update (d.waiting m ty) k none) : LaneMove d i d' m ty q := by
  by_cases hin : d.InLane m ty r
  · -- the lane of the request
    have hq' := (hd.lane_eq hin).trans hq
    unfold Docket.dequeue at hdequeue
    simp only [hq'] at hdequeue
    split at hdequeue
    · next hid =>
      obtain rfl := Option.some.inj hdequeue
      have hnext : d.waiting m ty k = some (some q.expected) := by
        rw [Docket.waiting_of_lookup hr, Docket.place_unprocessed hin hwaits, ← hin.1, hid]
      -- the id of the request is the next one, or it could not have gone
      have hexpected := expected_eq hord hnext
      rw [hexpected] at hnext
      refine .left hi hnext ?_ hwaiting
      rw [hlane, Docket.setLane_self hin, hexpected]
    · cases hdequeue
  · -- another lane
    refine .kept ?_ ?_
    · rw [hlane, ← hq]
      unfold Docket.dequeue at hdequeue
      split at hdequeue
      · rw [← Option.some.inj hdequeue]
      · split at hdequeue
        · rw [← Option.some.inj hdequeue, Docket.setLane_other hin]
        · cases hdequeue
    · rw [hwaiting]
      refine update_eq_self_iff.2 ?_
      rw [Docket.waiting_of_lookup hr, Docket.place_other hin]

/-- Storing a request again in the same place moves nobody. -/
theorem waiting_restored (hr : d.requests.lookup k = some r)
    (hrequests : d'.requests = d.requests.insert k r') (htranched : d'.tranched = d.tranched)
    (hplace : d.place m ty r' = d.place m ty r) : d'.waiting m ty = d.waiting m ty := by
  rw [Docket.waiting_insert hrequests htranched, hplace]
  exact update_eq_self_iff.2 (Docket.waiting_of_lookup hr).symm

/-- **Every request instruction** enters one request at the end of its lane, lets the first one
leave, or keeps the lane. -/
theorem DocketMove.laneMove (h : DocketMove d i d') (hd : d.Uniform)
    (hord : Ordered (d.waiting m ty) q.lastProcessed q.total) (hq : d.lane m ty = some q)
    (hroom : ∀ k ty', i.opens = some (k, ty') → (d'.waiting m ty k).isSome → q.total + 1 < u64) :
    LaneMove d i d' m ty q := by
  cases h with
  | @opened i k r lane opens fresh pending enqueued _ =>
    have hwaits : r.Unprocessed := .inl pending
    have hwaiting := Docket.waiting_insert (d := d) (m := m) (k := k) (r := r) (y := ty)
      (e := { d with
        requests := d.requests.insert k r
        lane := lane
        pendingDepositAmount := d.pendingDepositAmount + d.reserves r }) rfl rfl
    by_cases hin : d.InLane m ty r
    · have hq' := (hd.lane_eq hin).trans hq
      rw [Docket.enqueue_some hq'] at enqueued
      obtain ⟨rfl, hid⟩ := Prod.mk.inj enqueued
      have hopens : i.opens = some (k, ty) := by rw [opens, hin.1]
      have htotal : q.incrementTotal = { q with total := q.total + 1 } := by
        have hlt := hroom k ty hopens (by
          rw [hwaiting, update_self, Docket.place_unprocessed hin hwaits]
          rfl)
        rw [FifoQueue.incrementTotal, Nat.mod_eq_of_lt hlt]
      refine .entered hopens (Docket.waiting_of_fresh fresh) ?_ ?_
      · show d.setLane _ _ q.incrementTotal m ty = _
        rw [Docket.setLane_self hin, htotal]
      · rw [hwaiting, Docket.place_unprocessed hin hwaits, ← hin.1, ← hid, htotal]
    · refine .kept ?_ ?_
      · show lane m ty = some q
        rw [← hq]
        unfold Docket.enqueue at enqueued
        split at enqueued
        · rw [← (Prod.mk.inj enqueued).1]
        · rw [← (Prod.mk.inj enqueued).1, Docket.setLane_other hin]
      · rw [hwaiting, Docket.place_other hin]
        exact update_eq_self_iff.2 (Docket.waiting_of_fresh fresh).symm
  | @settled ctx args r lane amount price total found pending _ dequeued =>
    refine laneMove_of_dequeue hd hord hq found (.inl pending) dequeued rfl rfl ?_
    refine Eq.trans (Docket.waiting_insert rfl rfl) ?_
    rw [Docket.place_processed (by simp [Request.Unprocessed])]
  | @rejected _ _ ctx _ r lane found pending dequeued =>
    refine laneMove_of_dequeue hd hord hq found (.inl pending) dequeued rfl rfl ?_
    exact Docket.waiting_erase rfl rfl
  | @canceled _ ctx r found pending unqueued =>
    refine .kept hq ?_
    refine Eq.trans (Docket.waiting_erase rfl rfl) ?_
    refine update_eq_self_iff.2 ?_
    -- a request without an id does not wait in a queue
    by_cases hin : d.InLane m ty r
    · have hnone : d.waiting m ty ctx.request = some none := by
        rw [Docket.waiting_of_lookup found, Docket.place_unprocessed hin (.inl pending), ← hin.1,
          unqueued]
      obtain ⟨id, hid, -⟩ := hord.ticketed _ _ hnone
      cases hid
    · rw [Docket.waiting_of_lookup found, Docket.place_other hin]
  | @parked _ k r _ found pending =>
    refine .kept hq (waiting_restored found rfl rfl ?_)
    have hcanceled : Request.Unprocessed { r with requestState := .canceled } := .inr rfl
    by_cases hin : d.InLane m ty r
    · rw [Docket.place_unprocessed hin (.inl pending)]
      exact Docket.place_unprocessed (r := { r with requestState := .canceled }) hin hcanceled
    · rw [Docket.place_other hin]
      exact Docket.place_other (r := { r with requestState := .canceled }) hin
  | @skipped k _ r lane found canceled dequeued =>
    refine laneMove_of_dequeue hd hord hq found (.inr canceled) dequeued rfl rfl ?_
    exact Docket.waiting_erase rfl rfl
  | @claimed ctx r found claimable =>
    refine .kept hq ?_
    refine Eq.trans (Docket.waiting_erase rfl rfl) ?_
    refine update_eq_self_iff.2 ?_
    rw [Docket.waiting_of_lookup found,
      Docket.place_processed (by simp [Request.Unprocessed, claimable])]
  | @operated _ operator k r found => exact .kept hq (waiting_restored found rfl rfl rfl)

/-- An opened request is new. -/
theorem DocketMove.fresh_of_opens (h : DocketMove d i d') (ho : i.opens = some (k, ty)) :
    d.requests.lookup k = none := by
  cases h with
  | opened opens fresh =>
    obtain ⟨rfl, -⟩ := Prod.mk.inj (Option.some.inj (opens.symm.trans ho))
    exact fresh
  | @parked i k' _ parks =>
    cases i <;> simp [RequestInstruction.opens, RequestInstruction.parks] at ho parks
  | _ => cases ho

/-- Which lanes are queues does not change. -/
theorem DocketMove.lane_isSome (h : DocketMove d i d') (hd : d.Uniform) :
    (d'.lane m ty).isSome = (d.lane m ty).isSome := by
  -- writing a queue back leaves which lanes are queues
  have hset : ∀ (r : Request) (q₀ q : FifoQueue),
      d.lane r.shareMintAddress r.requestType = some q₀ →
      (d.setLane r.shareMintAddress r.requestType q m ty).isSome = (d.lane m ty).isSome := by
    intro r q₀ q hq₀
    by_cases hin : d.InLane m ty r
    · rw [Docket.setLane_self hin, ← hd.lane_eq hin, hq₀]
      rfl
    · rw [Docket.setLane_other hin]
  have henqueue : ∀ (r : Request) (lane : Lanes) (id : Option ℕ),
      d.enqueue r.shareMintAddress r.requestType = (lane, id) →
      (lane m ty).isSome = (d.lane m ty).isSome := by
    intro r lane id h
    unfold Docket.enqueue at h
    split at h
    · rw [(Prod.mk.inj h).1]
    · next q₀ hq₀ => rw [← (Prod.mk.inj h).1, hset r q₀ _ hq₀]
  have hdequeue : ∀ (r : Request) (lane : Lanes), d.dequeue r = some lane →
      (lane m ty).isSome = (d.lane m ty).isSome := by
    intro r lane h
    unfold Docket.dequeue at h
    split at h
    · rw [Option.some.inj h]
    · next q₀ hq₀ =>
      split at h
      · rw [← Option.some.inj h, hset r q₀ _ hq₀]
      · cases h
  -- every move enters, leaves or keeps the lanes
  cases h with
  | opened _ _ _ enqueued => exact henqueue _ _ _ enqueued
  | settled _ _ _ dequeued => exact hdequeue _ _ dequeued
  | rejected _ _ dequeued => exact hdequeue _ _ dequeued
  | skipped _ _ dequeued => exact hdequeue _ _ dequeued
  | _ => rfl

/-! ### Before initialisation -/

/-- No request has been opened, and every queue there may be stands at zero. -/
structure Fresh (s : VaultState) : Prop where
  requests : s.requests = ∅
  queues : ∀ t q, s.extensions.queue t = some q → q = ⟨0, 0⟩
  lanes : ∀ lanes, s.trancheConfig.map TrancheConfig.lanes = some lanes →
    ∀ m t q, lanes m t = some q → q = ⟨0, 0⟩

theorem Fresh.congr (h : Fresh s) (hrequests : s'.requests = s.requests)
    (hqueues : s'.extensions.queue = s.extensions.queue)
    (hlanes : s'.trancheConfig.map TrancheConfig.lanes = s.trancheConfig.map TrancheConfig.lanes) :
    Fresh s' := by
  refine ⟨hrequests.trans h.requests, ?_, ?_⟩
  · rw [hqueues]
    exact h.queues
  · rw [hlanes]
    exact h.lanes

theorem Fresh.lane (h : Fresh s) (hq : s.lane m ty = some q) : q = ⟨0, 0⟩ := by
  unfold VaultState.lane at hq
  split at hq
  · exact h.queues ty q hq
  · split at hq
    · obtain ⟨tc, htc, hlane⟩ := Option.bind_eq_some_iff.1 hq
      exact h.lanes tc.lanes (by rw [htc]; rfl) m ty q hlane
    · cases hq

theorem Fresh.waiting (h : Fresh s) : s.docket.waiting m ty = fun _ => none := by
  funext k
  refine Docket.waiting_of_fresh ?_
  show s.requests.lookup k = none
  rw [h.requests]
  rfl

theorem initialTrancheConfig_lanes {key : Pubkey} {ctx : InitializeTranches}
    {args : InitializeTranchesArgs} (h : (initialTrancheConfig key ctx args).lanes m ty = some q) :
    q = ⟨0, 0⟩ := by
  unfold TrancheConfig.lanes TrancheConfig.lane at h
  split at h
  · cases ty <;> exact (Option.some.inj h).symm
  · split at h
    · cases ty <;> exact (Option.some.inj h).symm
    · cases h

/-- No change touches the counters of a queue. -/
theorem change_queue (s : VaultState) (c : Change) :
    (s.change c).extensions.queue = s.extensions.queue := by
  funext t
  cases c with
  | vault args => rfl
  | fee args =>
    cases hk : args.kind <;> cases t <;>
      simp [VaultState.change, VaultExtensions.withFee, hk, VaultExtensions.queue]
  | extension args =>
    cases hk : args.kind <;> cases t <;>
      simp [VaultState.change, VaultExtensions.withUpdate, hk, VaultExtensions.queue]

/-- Configuration leaves a fresh vault fresh. -/
theorem Configured.fresh {i : ConfigInstruction} (h : Configured s i s') (hs : Fresh s) :
    Fresh s' := by
  have hchange : ∀ c : Change, Fresh (s.change c) := by
    intro c
    refine hs.congr ?_ (change_queue s c) ?_ <;> cases c <;> rfl
  cases h with
  | divided =>
    refine ⟨hs.requests, hs.queues, ?_⟩
    intro lanes hlanes m t q hq
    obtain rfl := Option.some.inj hlanes
    exact initialTrancheConfig_lanes hq
  | extended _ queues =>
    refine ⟨hs.requests, ?_, hs.lanes⟩
    intro t q hq
    rcases queues t with hsame | hzero
    · exact hs.queues t q (hsame ▸ hq)
    · exact (Option.some.inj (hzero.symm.trans hq)).symm
  | changed => exact hchange _
  | executed => exact (hchange _).congr rfl rfl rfl
  | _ => exact hs.congr rfl rfl rfl

/-- Requests are opened on initialised vaults. -/
theorem initialized_of_opens {remaining : List AccountInfo} (ho : i.opens.isSome)
    (h : execRequest s i remaining = .ok s') : s.vault.initialized = true := by
  cases i with
  | createDepositRequest ctx args =>
    obtain ⟨_, _, _, _, _, _, hacc, -⟩ := createDepositRequest_iff.1 h
    exact hacc.running.1
  | createRedeemRequest ctx args =>
    obtain ⟨_, _, _, _, _, hacc, -⟩ := createRedeemRequest_iff.1 h
    exact hacc.running.1
  | _ => cases ho

/-- No request instruction succeeds before initialisation. -/
theorem not_request_of_fresh {remaining : List AccountInfo} (hs : Fresh s)
    (hinit : s.vault.initialized = false) : execRequest s i remaining ≠ .ok s' := by
  intro h
  have hnone : ∀ k, s.docket.requests.lookup k = none := by
    intro k
    show s.requests.lookup k = none
    rw [hs.requests]
    rfl
  obtain ⟨d, -, hmove⟩ := execRequest_worked h
  cases hmove with
  | opened opens => simp [initialized_of_opens (by rw [opens]; rfl) h] at hinit
  | settled found => simp [hnone] at found
  | rejected found => simp [hnone] at found
  | canceled found => simp [hnone] at found
  | parked _ found => simp [hnone] at found
  | skipped found => simp [hnone] at found
  | claimed found => simp [hnone] at found
  | operated found => simp [hnone] at found

theorem initialized_of_settings {v v' : Vault} (h : v'.settings = v.settings) :
    v'.initialized = v.initialized := by
  show v'.settings.initialized = v.settings.initialized
  rw [h]

section Run

variable {s s' s₀ : ManagedState} {a : ManagedAction} {verify : MerkleCheck}
variable {t : Transition ManagedState ManagedAction}
variable {tr : List (Transition ManagedState ManagedAction)}

/-- The request instruction of an action. -/
def ManagedAction.requestInstruction : ManagedAction → Option RequestInstruction
  | .core (.request i _) => some i
  | _ => none

/-- Before initialisation nobody enters a lane. -/
theorem execManaged_fresh (h : execManaged verify s a = .ok s')
    (hinit : s.core.vault.initialized = false) (hs : Fresh s.core) :
    Fresh s'.core ∧ a.requestInstruction = none := by
  rcases execManaged_core h with ⟨b, rfl, hb, -⟩ | ⟨hact, hidle⟩
  · cases b with
    -- requests and instant operations need the vault initialized
    | request i remaining => exact absurd hb (not_request_of_fresh hs hinit)
    | instantDeposit ctx amount remaining =>
      obtain ⟨_, _, _, _, _, _, _, _, _, _, hi⟩ := instantDeposit_iff.1 hb
      simp [hi.accepted.running.1] at hinit
    | instantRedeem ctx shares remaining =>
      obtain ⟨_, _, _, _, _, _, _, _, _, _, _, hi⟩ := instantRedeem_iff.1 hb
      simp [hi.accepted.running.1] at hinit
    | updateVaultNav authority u remaining =>
      obtain ⟨version, mark, crystallized, tc, token, hcore, -, hlanes, -⟩ :=
        updateVaultNav_posted hb
      rw [hcore]
      exact ⟨hs.congr rfl rfl hlanes, rfl⟩
    | config i => exact ⟨(execConfig_configured hb).fresh hs, rfl⟩
    | world w =>
      obtain ⟨token, clock, hcore, -⟩ := execWorld_outside hb
      rw [hcore]
      exact ⟨hs.congr rfl rfl rfl, rfl⟩
  · refine ⟨hs.congr (congrArg Docket.requests hidle.docket) ?_ ?_, ?_⟩
    · rw [hidle.sameExtensions]
    · rw [hidle.sameTranches]
    -- nothing else carries a request instruction
    · cases a with
      | core b => exact absurd rfl (hact b)
      | _ => rfl

/-- Configuration of an initialised vault leaves its lanes. -/
theorem Configured.lanes {c c' : VaultState} {i : ConfigInstruction} (h : Configured c i c')
    (hinit : c.vault.initialized = true) :
    c'.lane = c.lane ∧ c'.requests = c.requests ∧
      c'.vault.trancheConfig = c.vault.trancheConfig ∧ c'.vault.initialized = true := by
  have hno : ¬c.vault.initialized = false := by simp [hinit]
  have hchange : ∀ d : Change, (c.change d).lane = c.lane ∧ (c.change d).requests = c.requests ∧
      (c.change d).vault.trancheConfig = c.vault.trancheConfig ∧
      (c.change d).vault.initialized = true := by
    intro d
    refine ⟨?_, ?_, ?_, ?_⟩
    · funext m t
      have hqueue := congrFun (change_queue c d) t
      cases d <;> simp only [VaultState.lane, VaultExtensions.hasFifoQueue, hqueue] <;> rfl
    all_goals cases d <;> first | rfl | exact hinit
  cases h with
  | started uninitialized => exact absurd uninitialized hno
  | divided uninitialized => exact absurd uninitialized hno
  | extended uninitialized => exact absurd uninitialized hno
  | changed => exact hchange _
  | executed => exact hchange _
  | _ => exact ⟨rfl, rfl, rfl, hinit⟩

/-- The lanes after an action: a request instruction moves in them, and no other action does. -/
theorem execManaged_lanes (h : execManaged verify s a = .ok s')
    (hinit : s.core.vault.initialized = true) :
    s'.core.vault.initialized = true ∧
      ((∃ i, a.requestInstruction = some i ∧ DocketMove s.core.docket i s'.core.docket) ∨
        (a.requestInstruction = none ∧ s'.core.lane = s.core.lane ∧
          s'.core.docket.waiting = s.core.docket.waiting)) := by
  have hworked : ∀ {d : Docket}, Worked s.core s'.core d → s'.core.vault.initialized = true :=
    fun hd => (initialized_of_settings hd.settings).trans hinit
  -- who waits is read off the requests and off whether there are tranches
  have hwaiting : s'.core.requests = s.core.requests →
      s'.core.docket.tranched = s.core.docket.tranched →
      s'.core.docket.waiting = s.core.docket.waiting := by
    intro hrequests htranched
    funext m t
    exact Docket.waiting_congr hrequests htranched
  have hdocket : s'.core.docket.requests = s.core.docket.requests →
      s'.core.docket.lane = s.core.docket.lane →
      s'.core.docket.tranched = s.core.docket.tranched →
      s'.core.lane = s.core.lane ∧ s'.core.docket.waiting = s.core.docket.waiting :=
    fun hrequests hlane htranched => ⟨hlane, hwaiting hrequests htranched⟩
  rcases execManaged_core h with ⟨b, rfl, hb, -⟩ | ⟨hact, hidle⟩
  · cases b with
    -- only a request instruction moves in the lanes
    | request i remaining =>
      obtain ⟨d, hd, hmove⟩ := execRequest_worked hb
      exact ⟨hworked hd, .inl ⟨i, rfl, hd.docket ▸ hmove⟩⟩
    | instantDeposit ctx amount remaining =>
      obtain ⟨net, -, -, hd⟩ := instantDeposit_worked hb
      exact ⟨hworked hd, .inr ⟨rfl, hdocket (by rw [hd.docket]) (by rw [hd.docket])
        (by rw [hd.docket])⟩⟩
    | instantRedeem ctx shares remaining =>
      obtain ⟨gross, hd⟩ := instantRedeem_worked hb
      exact ⟨hworked hd, .inr ⟨rfl, hdocket (by rw [hd.docket]) (by rw [hd.docket])
        (by rw [hd.docket])⟩⟩
    | updateVaultNav authority u remaining =>
      obtain ⟨version, mark, crystallized, tc, token, hcore, hd, -⟩ := updateVaultNav_posted hb
      refine ⟨by rw [hcore]; exact hinit, .inr ⟨rfl, hdocket ?_ ?_ ?_⟩⟩ <;> rw [hd]
    | config i =>
      obtain ⟨hlane, hrequests, htranche, hinit'⟩ := (execConfig_configured hb).lanes hinit
      refine ⟨hinit', .inr ⟨rfl, hlane, hwaiting hrequests ?_⟩⟩
      show s'.core.vault.trancheConfig.isSome = s.core.vault.trancheConfig.isSome
      rw [htranche]
    | world w =>
      obtain ⟨token, clock, hcore, -⟩ := execWorld_outside hb
      rw [hcore]
      exact ⟨hinit, .inr ⟨rfl, rfl, rfl⟩⟩
  · refine ⟨hworked hidle.toWorked, .inr ⟨?_, hdocket ?_ ?_ ?_⟩⟩
    · cases a with
      | core b => exact absurd rfl (hact b)
      | _ => rfl
    all_goals rw [hidle.docket]

/-! ### Lanes over runs -/

/-- A transition that opens a request in the lane of `m` and `ty`. -/
def opensIn (m : Pubkey) (ty : RequestType) (t : Transition ManagedState ManagedAction) : Bool :=
  t.act.requestInstruction.any fun i =>
    i.opens.any fun (k, _) => (t.post.core.docket.waiting m ty k).isSome

/-- The order of every lane, after the transitions `tr`. -/
structure LanesOrdered (tr : List (Transition ManagedState ManagedAction)) (s : ManagedState) :
    Prop where
  fresh : s.core.vault.initialized = false →
    Fresh s.core ∧ ∀ m ty, tr.countP (opensIn m ty) = 0
  ordered : ∀ m ty q, s.core.lane m ty = some q → q.total = tr.countP (opensIn m ty) ∧
    Ordered (s.core.docket.waiting m ty) q.lastProcessed q.total

theorem opensIn_of_not_request (h : t.act.requestInstruction = none) : opensIn m ty t = false := by
  rw [opensIn, h]
  rfl

theorem opensIn_of_request (h : t.act.requestInstruction = some i) :
    opensIn m ty t = i.opens.any fun (k, _) => (t.post.core.docket.waiting m ty k).isSome := by
  rw [opensIn, h]
  rfl

/-- A lane that a request instruction enters counts one more. -/
theorem LaneMove.counted (h : LaneMove t.pre.core.docket i t.post.core.docket m ty q)
    (hact : t.act.requestInstruction = some i)
    (hmove : DocketMove t.pre.core.docket i t.post.core.docket) :
    ∃ q', t.post.core.lane m ty = some q' ∧
      q'.total = q.total + (if opensIn m ty t then 1 else 0) ∧ q.lastProcessed ≤ q'.lastProcessed ∧
      (Ordered (t.pre.core.docket.waiting m ty) q.lastProcessed q.total →
        Ordered (t.post.core.docket.waiting m ty) q'.lastProcessed q'.total) := by
  cases h with
  | kept lane waiting =>
    -- a kept lane was not entered: the request that opens was not there before
    have hnone : opensIn m ty t = false := by
      rw [opensIn_of_request hact]
      cases ho : i.opens with
      | none => rfl
      | some x =>
        show (t.post.core.docket.waiting m ty x.1).isSome = false
        rw [waiting, Docket.waiting_of_fresh (hmove.fresh_of_opens ho)]
        rfl
    refine ⟨q, lane, by rw [hnone]; rfl, le_rfl, fun hord => ?_⟩
    rw [waiting]
    exact hord
  | entered opens fresh lane waiting =>
    have hsome : opensIn m ty t = true := by
      rw [opensIn_of_request hact, opens]
      show (t.post.core.docket.waiting m ty _).isSome = true
      rw [waiting, update_self]
      rfl
    refine ⟨_, lane, by rw [hsome]; rfl, le_rfl, fun hord => ?_⟩
    rw [waiting]
    exact hord.enter fresh
  -- and what is processed opens nothing
  | left processes next lane waiting =>
    have hnone : opensIn m ty t = false := by
      rw [opensIn_of_request hact]
      cases i <;> first | rfl | cases processes
    refine ⟨_, lane, by rw [hnone]; rfl, Nat.le_succ _, fun hord => ?_⟩
    rw [waiting]
    exact hord.leave next

/-- A request instruction moves in a lane that is in order and has room. -/
theorem LanesOrdered.laneMove (h : LanesOrdered tr t.pre) (hact : t.act.requestInstruction = some i)
    (hmove : DocketMove t.pre.core.docket i t.post.core.docket)
    (hcount : (tr ++ [t]).countP (opensIn m ty) < u64) (hq : t.pre.core.lane m ty = some q) :
    LaneMove t.pre.core.docket i t.post.core.docket m ty q := by
  obtain ⟨htotal, hord⟩ := h.ordered m ty q hq
  refine hmove.laneMove (docket_uniform _) hord hq fun k ty' ho hwaits => ?_
  have hopens : opensIn m ty t = true := by
    rw [opensIn_of_request hact, ho]
    exact hwaits
  rw [List.countP_append, List.countP_singleton, if_pos hopens] at hcount
  omega

/-- **One step.** -/
theorem LanesOrdered.step (h : LanesOrdered tr t.pre)
    (he : execManaged verify t.pre t.act = .ok t.post)
    (hcount : ∀ m ty, (tr ++ [t]).countP (opensIn m ty) < u64) :
    LanesOrdered (tr ++ [t]) t.post := by
  have hadd : ∀ m ty, (tr ++ [t]).countP (opensIn m ty) =
      tr.countP (opensIn m ty) + (if opensIn m ty t then 1 else 0) := by
    intro m ty
    rw [List.countP_append, List.countP_singleton]
  cases hinit : t.pre.core.vault.initialized with
  | false =>
    -- before initialisation the lanes stay empty
    obtain ⟨hfresh, hzero⟩ := h.fresh hinit
    obtain ⟨hfresh', hact⟩ := execManaged_fresh he hinit hfresh
    have hzero' : ∀ m ty, (tr ++ [t]).countP (opensIn m ty) = 0 := by
      intro m ty
      rw [hadd, hzero, opensIn_of_not_request hact]
      rfl
    refine ⟨fun _ => ⟨hfresh', hzero'⟩, fun m ty q hq => ?_⟩
    obtain rfl := hfresh'.lane hq
    refine ⟨(hzero' m ty).symm, ?_⟩
    rw [hfresh'.waiting]
    exact ordered_empty 0
  | true =>
    obtain ⟨hinit', hstep⟩ := execManaged_lanes he hinit
    refine ⟨fun h0 => absurd (hinit'.symm.trans h0) (by decide), fun m ty q' hq' => ?_⟩
    rcases hstep with ⟨i, hact, hmove⟩ | ⟨hact, hlane, hwaiting⟩
    -- afterwards a lane that is a queue was one before
    · obtain ⟨q, hq⟩ : ∃ q, t.pre.core.lane m ty = some q := by
        refine Option.isSome_iff_exists.1 ?_
        rw [← show (t.post.core.lane m ty).isSome = (t.pre.core.lane m ty).isSome from
          hmove.lane_isSome (docket_uniform _), hq']
        rfl
      obtain ⟨htotal, hord⟩ := h.ordered m ty q hq
      obtain ⟨q₁, hq₁, htotal₁, -, hord₁⟩ :=
        (h.laneMove hact hmove (hcount m ty) hq).counted hact hmove
      obtain rfl := Option.some.inj (hq₁.symm.trans hq')
      exact ⟨by rw [hadd, htotal₁, htotal], hord₁ hord⟩
    · rw [hlane] at hq'
      rw [hwaiting, hadd, opensIn_of_not_request hact]
      exact h.ordered m ty q' hq'

/-- **Every lane is in order** after every run of a new vault. -/
theorem lanesOrdered_of_run (h₀ : s₀.Created) (hrun : ManagedRun verify s₀ tr s)
    (hcount : ∀ m ty, tr.countP (opensIn m ty) < u64) : LanesOrdered tr s := by
  induction hrun with
  | nil =>
    obtain ⟨⟨w, ctx, args, hs⟩, -, -, -, -⟩ := h₀
    obtain ⟨-, hvault, htc, -, hrequests⟩ := createVault_state hs
    have hext : s₀.core.extensions = {} := by
      obtain ⟨_, _, _, token, -, hs⟩ := createVault_iff.1 hs
      rw [hs]
      rfl
    have hfresh : Fresh s₀.core := by
      refine ⟨hrequests, ?_, ?_⟩
      · intro t q hq
        rw [hext] at hq
        cases t <;> cases hq
      · intro lanes hlanes
        rw [htc] at hlanes
        cases hlanes
    refine ⟨fun _ => ⟨hfresh, fun m ty => rfl⟩, fun m ty q hq => ?_⟩
    obtain rfl := hfresh.lane hq
    refine ⟨rfl, ?_⟩
    rw [hfresh.waiting]
    exact ordered_empty 0
  | @snoc tr s s' a hr he ih =>
    refine (ih fun m ty => ?_).step (t := ⟨s, a, s'⟩) he hcount
    have hle := hcount m ty
    rw [List.countP_append] at hle
    omega

/-! ### What that means for the requests -/

/-- The requests of a lane with the queue `q` that have not been processed: they hold the ids
between the counters, each id once. -/
structure InOrder (d : Docket) (m : Pubkey) (ty : RequestType) (q : FifoQueue) : Prop where
  le : q.lastProcessed ≤ q.total
  held : ∀ id, q.lastProcessed < id → id ≤ q.total → ∃! k, ∃ r, d.requests.lookup k = some r ∧
    d.InLane m ty r ∧ r.Unprocessed ∧ r.queueId ty = some id
  only : ∀ k r, d.requests.lookup k = some r → d.InLane m ty r → r.Unprocessed →
    ∃ id, r.queueId ty = some id ∧ q.lastProcessed < id ∧ id ≤ q.total

theorem waiting_eq_some {x : Option ℕ} :
    d.waiting m ty k = some x ↔ ∃ r, d.requests.lookup k = some r ∧ d.InLane m ty r ∧
      r.Unprocessed ∧ r.queueId ty = x := by
  rw [Docket.waiting, Option.bind_eq_some_iff]
  refine exists_congr fun r => and_congr_right fun _ => ?_
  unfold Docket.place
  split
  · next h => simp [h.1, h.2]
  · next h => simp only [reduceCtorEq, false_iff]; exact fun h' => h ⟨h'.1, h'.2.1⟩

theorem inOrder_of_ordered (h : Ordered (d.waiting m ty) q.lastProcessed q.total) :
    InOrder d m ty q where
  le := h.le
  held id hlo hhi := by simpa only [waiting_eq_some] using h.existsUnique hlo hhi
  only k r hr hin hwaits :=
    h.ticketed k (r.queueId ty) (waiting_eq_some.2 ⟨r, hr, hin, hwaits, rfl⟩)

/-- The request at `k` leaves the queue of its lane, where it has the id `id`. -/
def Leaves (m : Pubkey) (ty : RequestType) (t : Transition ManagedState ManagedAction) (k : Pubkey)
    (id : ℕ) : Prop :=
  (t.pre.core.lane m ty).isSome ∧ t.pre.core.docket.waiting m ty k = some (some id) ∧
    t.post.core.docket.waiting m ty k ≠ some (some id)

/-- The id last processed in a lane. -/
def lastProcessed (m : Pubkey) (ty : RequestType) (s : ManagedState) : ℕ :=
  ((s.core.lane m ty).map FifoQueue.lastProcessed).getD 0

/-- A transition leaves a lane or advances it, and lets a request leave only by processing the
one that is next. -/
theorem LanesOrdered.transition (h : LanesOrdered tr t.pre)
    (he : execManaged verify t.pre t.act = .ok t.post)
    (hcount : (tr ++ [t]).countP (opensIn m ty) < u64) :
    lastProcessed m ty t.pre ≤ lastProcessed m ty t.post ∧
      ∀ k id, Leaves m ty t k id →
        (∃ i, t.act.requestInstruction = some i ∧ i.processes = some k) ∧
          id = lastProcessed m ty t.pre + 1 ∧ lastProcessed m ty t.post = id := by
  cases hinit : t.pre.core.vault.initialized with
  | false =>
    -- nobody is in a lane that can be left
    obtain ⟨hfresh, -⟩ := h.fresh hinit
    refine ⟨?_, fun k id hleaves => ?_⟩
    · have hzero : lastProcessed m ty t.pre = 0 := by
        unfold lastProcessed
        cases hq : t.pre.core.lane m ty with
        | none => rfl
        | some q =>
          rw [hfresh.lane hq]
          rfl
      omega
    · rw [Leaves, hfresh.waiting] at hleaves
      cases hleaves.2.1
  | true =>
    obtain ⟨-, hstep⟩ := execManaged_lanes he hinit
    rcases hstep with ⟨i, hact, hmove⟩ | ⟨-, hlane, hwaiting⟩
    · cases hq : t.pre.core.lane m ty with
      | none =>
        refine ⟨by simp [lastProcessed, hq], fun k id hleaves => ?_⟩
        rw [Leaves, hq] at hleaves
        cases hleaves.1
      | some q =>
        have hlane := h.laneMove hact hmove hcount hq
        obtain ⟨q', hq', -, hle, -⟩ := hlane.counted hact hmove
        refine ⟨by simp [lastProcessed, hq, hq', hle], fun k id hleaves => ?_⟩
        obtain ⟨-, hwaits, hgone⟩ := hleaves
        -- a request that leaves is the one the step processes
        cases hlane with
        | kept _ waiting =>
          rw [waiting] at hgone
          exact absurd hwaits hgone
        | @entered k' _ fresh _ waiting =>
          have hk : k ≠ k' := fun hk => by rw [hk, fresh] at hwaits; cases hwaits
          rw [waiting, update_of_ne hk] at hgone
          exact absurd hwaits hgone
        | @left k' processes next lane waiting =>
          have hk : k = k' := by
            by_contra hk
            rw [waiting, update_of_ne hk] at hgone
            exact hgone hwaits
          subst hk
          obtain rfl := Option.some.inj (Option.some.inj (hwaits.symm.trans next))
          refine ⟨⟨i, hact, processes⟩, by simp [lastProcessed, hq], ?_⟩
          rw [lastProcessed, show t.post.core.lane m ty = _ from lane]
          rfl
    · refine ⟨by simp [lastProcessed, hlane], fun k id hleaves => ?_⟩
      -- no other action moves anybody
      rw [Leaves, hwaiting] at hleaves
      exact absurd hleaves.2.1 hleaves.2.2

/-- **FIFO lanes lose and reorder nothing.** After every run of a new vault that opens fewer
than `2 ^ 64` requests in each lane, the unprocessed requests of each queue are in order.  In the
run requests leave a queue only when they are approved, rejected or skipped, and in the order of
their ids. -/
theorem lanes_in_order (h₀ : s₀.Created) (hrun : ManagedRun verify s₀ tr s)
    (hcount : ∀ m ty, tr.countP (opensIn m ty) < u64) :
    (∀ m ty q, s.core.lane m ty = some q → InOrder s.core.docket m ty q) ∧
      (∀ t ∈ tr, ∀ m ty k id, Leaves m ty t k id →
        (∃ i, t.act.requestInstruction = some i ∧ i.processes = some k) ∧
          id = lastProcessed m ty t.pre + 1 ∧ lastProcessed m ty t.post = id) ∧
      ∀ m ty, tr.Pairwise fun t t' =>
        ∀ k id k' id', Leaves m ty t k id → Leaves m ty t' k' id' → id < id' := by
  -- each transition, at the lanes of the run up to it
  have hstep : ∀ t ∈ tr, ∀ m ty, lastProcessed m ty t.pre ≤ lastProcessed m ty t.post ∧
      ∀ k id, Leaves m ty t k id →
        (∃ i, t.act.requestInstruction = some i ∧ i.processes = some k) ∧
          id = lastProcessed m ty t.pre + 1 ∧ lastProcessed m ty t.post = id := by
    intro t ht m ty
    obtain ⟨l, r, rfl⟩ := List.append_of_mem ht
    obtain ⟨hl, he, -⟩ := hrun.of_transition
    have hcount : ∀ m ty, (l ++ [t]).countP (opensIn m ty) < u64 := by
      intro m ty
      have hle := hcount m ty
      rw [← List.singleton_append, ← List.append_assoc, List.countP_append] at hle
      omega
    refine (lanesOrdered_of_run h₀ hl fun m ty => ?_).transition he (hcount m ty)
    have hle := hcount m ty
    rw [List.countP_append] at hle
    omega
  refine ⟨fun m ty q hq => ?_, fun t ht m ty => (hstep t ht m ty).2, fun m ty => ?_⟩
  · exact inOrder_of_ordered ((lanesOrdered_of_run h₀ hrun hcount).ordered m ty q hq).2
  -- ids rise with the last one processed, which never falls
  · have hpairs := hrun.pairwise_monotone (f := lastProcessed m ty)
      fun t ht => (hstep t ht m ty).1
    refine hpairs.imp_of_mem ?_
    intro t t' ht ht' hle k id k' id' hleaves hleaves'
    obtain ⟨-, -, hpost⟩ := (hstep t ht m ty).2 k id hleaves
    obtain ⟨-, hnext, -⟩ := (hstep t' ht' m ty).2 k' id' hleaves'
    omega

open Scenario in
/-- **Non-vacuity.** Of two queued deposits the first is taken back and skipped; the second has
the only id left. -/
theorem lanes_in_order_skipped :
    ∃ s₀ tr s, ManagedState.Created s₀ ∧ ManagedRun noCalls s₀ tr s ∧
      s.core.lane senior .deposit = some ⟨2, 1⟩ ∧
      InOrder s.core.docket senior .deposit ⟨2, 1⟩ := by
  obtain ⟨s₀, tr, s, h₀, hrun, hacts, hp⟩ := exists_managed_run
    ((openQueues ++ [start, deposit 100 senior 10, deposit 101 senior 20,
      cancelQueuedDeposit 100 senior, skip 100]).map .core)
    (fun _ s => s.core.lane senior .deposit = some ⟨2, 1⟩) (by decide +kernel)
  have hlane := of_decide_eq_true hp
  have hlength : tr.length = 7 := by
    simpa [openQueues] using congrArg List.length hacts
  have hcount : ∀ m ty, tr.countP (opensIn m ty) < u64 := fun m ty =>
    (List.countP_le_length (p := opensIn m ty)).trans_lt (by rw [hlength]; decide)
  exact ⟨s₀, tr, s, h₀, hrun, hlane, (lanes_in_order h₀ hrun hcount).1 _ _ _ hlane⟩

end Run

end AsyncVault
