/-
AsyncVault/FreshNav.lean

What a request is priced at.

A vault that wants fresh NAVs settles a request at the quote of a NAV update made
after the request was.  The request carries the version of the NAV it was created
under, versions count updates, and the approval asks for a later one; so an
update lies between the two, and the last one before the approval is where the
price comes from (`fresh_pricing`).  From then on the entry stays as it is,
whatever happens, until the request is closed.

What any instruction does to the entry of one request is told once
(`EntryMove`), and everything here is a reading of it.
-/
import AsyncVault.NavHistory

namespace AsyncVault

open Checked TokenLedger KeyedStore Function Machine

variable {s s' : VaultState} {d d' : Docket} {k m : Pubkey} {r q : Request}
variable {remaining : List AccountInfo} {i : RequestInstruction}

/-! ### One entry -/

/-- What a request instruction can do to the entry at `k`. -/
inductive EntryMove (i : RequestInstruction) (k : Pubkey) : Option Request → Option Request → Prop
  | kept {o : Option Request} : EntryMove i k o o
  | opened {r : Request} (opens : i.opens = some (k, r.requestType))
      (pending : r.requestState = .pending) :
      EntryMove i k none (some r)
  | approved {ctx : ApproveRequest} {args : ApproveRequestArgs} {r : Request} {amount price : ℕ}
      (act : i = .approveRequest ctx args)
      (target : ctx.request = k) (pending : r.requestState = .pending) :
      EntryMove i k (some r)
        (some { r with amount := amount, price := price, requestState := .claimable })
  | closed {r : Request} : EntryMove i k (some r) none
  | parked {r : Request} (pending : r.requestState = .pending) :
      EntryMove i k (some r) (some { r with requestState := .canceled })
  | operated {r : Request} {operator : Option Pubkey} :
      EntryMove i k (some r) (some { r with operator := operator })

/-- Writing elsewhere keeps the entry. -/
theorem EntryMove.insert {k' : Pubkey} (h : k' = k → EntryMove i k (d.requests.lookup k) (some r)) :
    EntryMove i k (d.requests.lookup k) ((d.requests.insert k' r).lookup k) := by
  by_cases hk : k' = k
  · subst hk
    rw [AList.lookup_insert]
    exact h rfl
  · rw [AList.lookup_insert_ne (Ne.symm hk)]
    exact .kept

theorem EntryMove.erase {k' : Pubkey} (found : d.requests.lookup k' = some r) :
    EntryMove i k (d.requests.lookup k) ((d.requests.erase k').lookup k) := by
  by_cases hk : k' = k
  · subst hk
    rw [AList.lookup_erase, found]
    exact .closed
  · rw [AList.lookup_erase_ne (Ne.symm hk)]
    exact .kept

theorem DocketMove.entry (h : DocketMove d i d') (k : Pubkey) :
    EntryMove i k (d.requests.lookup k) (d'.requests.lookup k) := by
  cases h with
  | opened opens fresh pending enqueued capped =>
    refine .insert ?_
    rintro rfl
    rw [fresh]
    exact .opened opens pending
  | settled found pending primary dequeued reserved balance =>
    refine .insert ?_
    rintro rfl
    rw [found]
    exact .approved rfl rfl pending
  | rejected found pending dequeued reserved => exact .erase found
  | canceled found pending unqueued reserved => exact .erase found
  | parked parks found pending queued reserved =>
    refine .insert ?_
    rintro rfl
    rw [found]
    exact .parked pending
  | skipped found canceled dequeued => exact .erase found
  | claimed found claimable => exact .erase found
  | operated found =>
    refine .insert ?_
    rintro rfl
    rw [found]
    exact .operated

/-- A claimable entry stays as it is until it is closed. -/
theorem EntryMove.claimable {o : Option Request} (h : EntryMove i k (some q) o)
    (hq : q.requestState = .claimable) : o = none ∨ ∃ q', o = some q' ∧ q.Same q' := by
  cases h with
  | kept => exact .inr ⟨q, rfl, .refl q⟩
  | approved act target pending => rw [hq] at pending; cases pending
  | closed => exact .inl rfl
  | parked pending => rw [hq] at pending; cases pending
  | operated => exact .inr ⟨_, rfl, rfl⟩

/-- An entry becomes claimable by its approval. -/
theorem EntryMove.of_claimable {o : Option Request} (h : EntryMove i k o (some q))
    (hq : q.requestState = .claimable) (ho : ∀ r, o = some r → r.requestState ≠ .claimable) :
    ∃ ctx args, i = .approveRequest ctx args ∧ ctx.request = k := by
  cases h with
  | kept => exact absurd hq (ho q rfl)
  | opened opens pending => rw [hq] at pending; cases pending
  | approved act target pending => exact ⟨_, _, act, target⟩
  | parked => cases hq
  | @operated r operator => exact absurd hq (ho r rfl)

/-- A pending entry was pending before, or was just opened. -/
theorem EntryMove.of_pending {o : Option Request} (h : EntryMove i k o (some r))
    (hr : r.requestState = .pending) :
    (∃ r₀, o = some r₀ ∧ r₀.requestState = .pending ∧ r₀.Same r) ∨
      o = none ∧ i.opens = some (k, r.requestType) := by
  cases h with
  | kept => exact .inl ⟨r, rfl, hr, .refl r⟩
  | opened opens pending => exact .inr ⟨rfl, opens⟩
  | approved => cases hr
  | parked => cases hr
  | @operated r₀ operator => exact .inl ⟨r₀, rfl, hr, rfl⟩

/-! ### Opening and approving -/

/-- A request carries the version of the NAV it is created under. -/
theorem execRequest_version {t : RequestType} (h : execRequest s i remaining = .ok s')
    (ho : i.opens = some (k, t)) (hr : s'.requests.lookup k = some r) :
    r.navUpdateVersion = s.vault.navVersion := by
  cases i with
  | createDepositRequest ctx args =>
    obtain ⟨rfl, rfl⟩ := Prod.mk.inj (Option.some.inj ho)
    obtain ⟨_, _, _, _, _, _, -, ⟨-, -, -, -, rfl⟩⟩ := createDepositRequest_iff.1 h
    rw [VaultState.put, AList.lookup_insert, Option.some.injEq] at hr
    rw [← hr]
    rfl
  | createRedeemRequest ctx args =>
    obtain ⟨rfl, rfl⟩ := Prod.mk.inj (Option.some.inj ho)
    obtain ⟨_, _, _, _, _, -, ⟨-, -, -, rfl⟩⟩ := createRedeemRequest_iff.1 h
    rw [VaultState.put, AList.lookup_insert, Option.some.injEq] at hr
    rw [← hr]
    rfl
  | _ => cases ho

/-- The amount `q` may be claimed for is what `r` comes to at the price of `q`, less the fee. -/
def VaultState.PricedAt (s : VaultState) (r q : Request) : Prop :=
  ∃ share, s.token.mints r.shareMintAddress = some share ∧
    match r.requestType with
    | .deposit => ∃ fee net, getDepositFeeAndNet s.extensions r.amount = .ok (fee, net) ∧
        calculateShares q.price share.decimals net = .ok q.amount
    | .redeem => ∃ gross fee, calculateAssets q.price share.decimals r.amount = .ok gross ∧
        getWithdrawalFeeAndNet s.extensions gross = .ok (fee, q.amount)

/-- What an approval does to its request. -/
structure VaultState.Prices (s : VaultState) (k : Pubkey) (r q : Request) : Prop where
  found : s.requests.lookup k = some r
  became : q = { r with
    amount := q.amount
    price := s.price r.shareMintAddress
    requestState := .claimable }
  amount : s.PricedAt r q
  fresh : s.vault.requireFreshNav = true → r.navUpdateVersion < s.vault.navVersion
  notStale : 0 < s.vault.maxNavStalenessSlots →
    s.clock.slot ≤ s.vault.lastNavUpdateSlot + s.vault.maxNavStalenessSlots

/-- The queues play no part in the fees. -/
theorem fees_of_unqueued {ext ext' : VaultExtensions} (h : ext'.unqueued = ext.unqueued) :
    getDepositFeeAndNet ext' = getDepositFeeAndNet ext ∧
      getWithdrawalFeeAndNet ext' = getWithdrawalFeeAndNet ext := by
  have hd : ext'.depositFee = ext.depositFee := by
    show ext'.unqueued.depositFee = ext.unqueued.depositFee
    rw [h]
  have hw : ext'.withdrawalFee = ext.withdrawalFee := by
    show ext'.unqueued.withdrawalFee = ext.unqueued.withdrawalFee
    rw [h]
  constructor
  · funext amount
    simp only [getDepositFeeAndNet, getDepositFee, hd]
  · funext amount
    simp only [getWithdrawalFeeAndNet, getWithdrawalFee, hw]

/-- An approval reads the vault's own tranche context. -/
theorem ApproveRequest.Accepted.context_eq (hc : s.terms.Coherent) {ctx : ApproveRequest}
    {args : ApproveRequestArgs} {share : Mint Pubkey} {context : RequestShareMintContext}
    (h : ctx.Accepted s args remaining r share context) :
    context = s.requestContext ctx.shareMint :=
  (validateRequestShareMint_ok hc h.context).2

theorem approveRequest_prices (hc : s.terms.Coherent) {ctx : ApproveRequest}
    {args : ApproveRequestArgs} (h : approveRequest s ctx args remaining = .ok s') :
    ∃ r q, s.Prices ctx.request r q ∧ s'.requests.lookup ctx.request = some q := by
  obtain ⟨r, share, context, s₁, x, v, hacc, hsettles⟩ := approveRequest_iff.1 h
  obtain ⟨hr, -, -, hm, htranched⟩ := hacc.docket
  have hmint := hacc.shareMint
  obtain rfl := hacc.context_eq hc
  have hfresh := hsettles.fresh
  have hstale := hsettles.notStale
  have hstate := hsettles.state
  simp only [decrementPendingRequests, bind_eq_ok, pure_eq_ok] at hstate
  obtain ⟨pending, -, rfl⟩ := hstate
  -- advancing the queue leaves the fees that the settlement reads
  have hext : s₁.extensions.unqueued = s.extensions.unqueued := by
    have hadvance := hsettles.queue
    rw [← hm] at hadvance
    obtain ⟨lane, -, hworked⟩ := advanceQueue_worked htranched hadvance
    exact hworked.extensions
  obtain ⟨hdeposit, hwithdrawal⟩ := fees_of_unqueued hext
  refine ⟨r, _, ⟨hr, ?_, ⟨share, by rw [hm]; exact hmint, ?_⟩, fun hrequire => ?_, fun hmax => ?_⟩,
    AList.lookup_insert _⟩
  · rw [hm]
    rfl
  · cases ht : r.requestType with
    | deposit =>
      obtain ⟨fee, net, _, _, _, _, _, hs, rfl⟩ := settleDeposit_iff.1 (hsettles.deposit ht).1
      have hparts := hs.parts
      rw [hdeposit] at hparts
      exact ⟨fee, net, hparts, hs.priced⟩
    | redeem =>
      obtain ⟨gross, fee, _, _, _, _, _, _, hs, rfl⟩ := settleRedeem_iff.1 (hsettles.redeem ht).1
      obtain ⟨tc, rfl, -⟩ := updateTrancheSupplyCache_terms hs.cached
      have hparts := hs.parts
      simp only at hparts
      rw [hwithdrawal] at hparts
      exact ⟨gross, fee, hs.valued, hparts⟩
  -- the two checks of the NAV, each where its setting asks for it
  · simp only [Vault.assertFreshNavForRequest, hrequire, if_true, ensure_eq_ok] at hfresh
    exact hfresh
  · unfold Vault.assertNavNotStale at hstale
    rw [if_neg hmax.ne'] at hstale
    simp only [bind_eq_ok, sub_eq_ok, ensure_eq_ok] at hstale
    obtain ⟨_, ⟨-, rfl⟩, hle⟩ := hstale
    omega

/-! ### One transition -/

variable {t t₀ : ManagedState} {verify : MerkleCheck}
variable {x y : Transition ManagedState ManagedAction}
variable {tr later : List (Transition ManagedState ManagedAction)}

theorem Configured.requests {i : ConfigInstruction} (h : Configured s i s') :
    s'.requests = s.requests := by
  have hchange : ∀ c : Change, (s.change c).requests = s.requests := by
    intro c
    cases c <;> rfl
  cases h with
  | changed => exact hchange _
  | executed => exact hchange _
  | _ => rfl

/-- A transition is a request instruction, or leaves the requests alone. -/
theorem execManaged_entries (h : execManaged verify x.pre x.act = .ok x.post) :
    (∃ i remaining, x.act = .core (.request i remaining) ∧
        execRequest x.pre.core i remaining = .ok x.post.core ∧
        ∀ k, EntryMove i k (x.pre.core.requests.lookup k) (x.post.core.requests.lookup k)) ∨
      x.post.core.requests = x.pre.core.requests := by
  rcases execManaged_core h with ⟨b, hact, hb, -⟩ | ⟨-, hidle⟩
  · cases b with
    | request i remaining =>
      obtain ⟨d, hworked, hmove⟩ := execRequest_worked hb
      refine .inl ⟨i, remaining, hact, hb, fun k => ?_⟩
      have hentry := hmove.entry k
      rwa [← hworked.docket] at hentry
    | instantDeposit ctx amount remaining =>
      obtain ⟨net, -, -, hworked⟩ := instantDeposit_worked hb
      exact .inr (congrArg Docket.requests hworked.docket)
    | instantRedeem ctx shares remaining =>
      obtain ⟨gross, hworked⟩ := instantRedeem_worked hb
      exact .inr (congrArg Docket.requests hworked.docket)
    | updateVaultNav authority u remaining => exact .inr (updateVaultNav_settles hb).requests
    | config i =>
      exact .inr (execConfig_configured hb).requests
    | world w =>
      obtain ⟨token, clock, houtside, -⟩ := execWorld_outside hb
      rw [houtside]
      exact .inr rfl
  · exact .inr (congrArg Docket.requests hidle.docket)

/-- A request instruction posts no NAV. -/
theorem postedNav_request (h : x.act = .core (.request i remaining)) : postedNav x = none := by
  simp [postedNav, h, Action.postedNav]

/-- The request at `k` becomes claimable. -/
def BecomesClaimable (k : Pubkey) (x : Transition ManagedState ManagedAction) : Prop :=
  (∃ q, x.post.core.requests.lookup k = some q ∧ q.requestState = .claimable) ∧
    ∀ r, x.pre.core.requests.lookup k = some r → r.requestState ≠ .claimable

/-- It is priced by its approval. -/
theorem prices_of_becomesClaimable (hc : x.pre.core.terms.Coherent)
    (he : execManaged verify x.pre x.act = .ok x.post) (hx : BecomesClaimable k x) :
    ∃ r q, x.pre.core.Prices k r q ∧ r.requestState = .pending ∧
      x.post.core.requests.lookup k = some q := by
  obtain ⟨⟨q, hq, hstate⟩, hbefore⟩ := hx
  rcases execManaged_entries he with ⟨i, remaining, -, hexec, hentry⟩ | hsame
  · have hmove := hentry k
    rw [hq] at hmove
    obtain ⟨ctx, args, rfl, rfl⟩ := hmove.of_claimable hstate hbefore
    obtain ⟨r, q', hprices, hq'⟩ := approveRequest_prices hc hexec
    refine ⟨r, q', hprices, ?_, hq'⟩
    obtain ⟨d, -, hdocket⟩ := approveRequest_worked hexec
    cases hdocket with
    | settled found pending =>
      obtain rfl := Option.some.inj (found.symm.trans hprices.found)
      exact pending
    | opened opens => cases opens
    | parked parks => cases parks
  · rw [hsame] at hq
    exact absurd hstate (hbefore q hq)

/-! ### Runs -/

/-- Where a pending request comes from: it was opened under the NAV version it carries, and its
account has not been closed since. -/
theorem pending_since (h₀ : t₀.Created) (hrun : ManagedRun verify t₀ tr t)
    (hr : t.core.requests.lookup k = some r) (hp : r.requestState = .pending) :
    ∃ tr₁ c tr₂ r₀, tr = tr₁ ++ c :: tr₂ ∧ c.pre.core.requests.lookup k = none ∧
      c.post.core.requests.lookup k = some r₀ ∧ r₀.Same r ∧
      (∀ y ∈ tr₂, (y.post.core.requests.lookup k).isSome) ∧ postedNav c = none ∧
      r.navUpdateVersion = c.pre.core.vault.navVersion := by
  induction hrun generalizing r with
  | nil =>
    obtain ⟨w, ctx, args, hcreate⟩ := h₀.core
    obtain ⟨-, -, -, -, hempty⟩ := createVault_state hcreate
    rw [hempty] at hr
    cases hr
  | @snoc tr t t' a hrun he ih =>
    -- still pending, or opened by the last transition
    have hstep : (∃ r₀, t.core.requests.lookup k = some r₀ ∧ r₀.requestState = .pending ∧
        r₀.Same r) ∨ t.core.requests.lookup k = none ∧ postedNav ⟨t, a, t'⟩ = none ∧
          r.navUpdateVersion = t.core.vault.navVersion := by
      rcases execManaged_entries (x := ⟨t, a, t'⟩) he with
        ⟨i, remaining, hact, hexec, hentry⟩ | hsame
      · have hmove := hentry k
        simp only at hmove
        rw [hr] at hmove
        rcases hmove.of_pending hp with hbefore | ⟨hnone, hopens⟩
        · exact .inl hbefore
        · exact .inr ⟨hnone, postedNav_request hact, execRequest_version hexec hopens hr⟩
      · have hsame : t'.core.requests = t.core.requests := hsame
        rw [hsame] at hr
        exact .inl ⟨r, hr, hp, .refl r⟩
    rcases hstep with ⟨r₁, hr₁, hp₁, hsame⟩ | ⟨hnone, hposted, hversion⟩
    · obtain ⟨tr₁, c, tr₂, r₀, rfl, hbefore, hafter, hsame₀, hopen, hposted, hversion⟩ := ih hr₁ hp₁
      refine ⟨tr₁, c, tr₂ ++ [⟨t, a, t'⟩], r₀, by rw [List.append_assoc, List.cons_append], hbefore,
        hafter, hsame₀.trans hsame, fun y hy => ?_, hposted, ?_⟩
      · rcases List.mem_append.1 hy with hy | hy
        · exact hopen y hy
        · rw [List.mem_singleton.1 hy, hr]
          rfl
      · rw [hsame]
        exact hversion
    · exact ⟨tr, ⟨t, a, t'⟩, [], r, rfl, hnone, hr, .refl r, by simp, hposted, hversion⟩

/-- Once claimable, an entry that is not closed stays what it is. -/
theorem claimable_stays (hrun : ManagedRun verify t₀ tr t)
    (hq : t₀.core.requests.lookup k = some q) (hstate : q.requestState = .claimable)
    (hopen : ∀ y ∈ tr, (y.post.core.requests.lookup k).isSome) :
    ∃ q', t.core.requests.lookup k = some q' ∧ q.Same q' := by
  induction hrun with
  | nil => exact ⟨q, hq, .refl q⟩
  | @snoc tr t t' a hrun he ih =>
    obtain ⟨q₁, hq₁, hsame₁⟩ := ih fun y hy => hopen y (List.mem_append_left _ hy)
    have hstate₁ : q₁.requestState = .claimable := by
      rw [hsame₁]
      exact hstate
    have hlast : (t'.core.requests.lookup k).isSome :=
      hopen ⟨t, a, t'⟩ (List.mem_append_right _ (List.mem_singleton_self _))
    rcases execManaged_entries (x := ⟨t, a, t'⟩) he with ⟨i, remaining, -, -, hentry⟩ | hsame
    · have hmove := hentry k
      simp only at hmove
      rw [hq₁] at hmove
      rcases hmove.claimable hstate₁ with hnone | ⟨q', hq', hsame'⟩
      · rw [hnone] at hlast
        cases hlast
      · exact ⟨q', hq', hsame₁.trans hsame'⟩
    · have hsame : t'.core.requests = t.core.requests := hsame
      rw [hsame]
      exact ⟨q₁, hq₁, hsame₁⟩

/-- The price of a request that became claimable: where it comes from. -/
structure PricedAfresh (tr : List (Transition ManagedState ManagedAction))
    (x : Transition ManagedState ManagedAction) (k : Pubkey) (r q : Request) : Prop where
  before : x.pre.core.requests.lookup k = some r
  after : x.post.core.requests.lookup k = some q
  became : q = { r with amount := q.amount, price := q.price, requestState := .claimable }
  amount : x.pre.core.PricedAt r q
  /-- The request was opened by `c`, the last NAV update `p` came after it, and the price is what
  `p` left. -/
  quoted : ∃ tr₁ c tr₂ p tr₃, tr = tr₁ ++ c :: tr₂ ++ p :: tr₃ ∧
    (c.pre.core.requests.lookup k = none ∧ ∃ r₀, c.post.core.requests.lookup k = some r₀ ∧
      r₀.Same r) ∧
    (∀ y ∈ tr₂ ++ p :: tr₃, (y.post.core.requests.lookup k).isSome) ∧
    (postedNav p).isSome ∧ (∀ y ∈ tr₃, postedNav y = none) ∧
    q.price = p.post.core.price r.shareMintAddress ∧
    (0 < x.pre.core.vault.maxNavStalenessSlots →
      x.pre.core.clock.slot ≤ p.pre.core.clock.slot + x.pre.core.vault.maxNavStalenessSlots)

/-- The slot of an update is recorded with its quote. -/
theorem slot_of_posted (he : execManaged verify x.pre x.act = .ok x.post)
    (hx : (postedNav x).isSome) : x.post.core.quote.slot = x.pre.core.clock.slot := by
  rcases execManaged_quote he with ⟨hnone, -⟩ | ⟨authority, u, remaining, -, -, hupdate⟩
  · rw [hnone] at hx
    cases hx
  · exact (updateVaultNav_quote hupdate).2.2.1

/-- **Fresh prices.**  A vault that wants fresh NAVs prices a request at the quote of the last NAV
update, which was made after the request was opened and is not stale; and the entry stays as it
is until it is closed. -/
theorem fresh_pricing (h₀ : t₀.Created) (hrun : ManagedRun verify t₀ (tr ++ x :: later) t)
    (hfresh : ∀ y ∈ tr ++ x :: later, y.pre.core.vault.requireFreshNav = true)
    (hx : BecomesClaimable k x) :
    ∃ r q, PricedAfresh tr x k r q ∧
      ∀ l₁ l₂ t', later = l₁ ++ l₂ → ManagedRun verify x.post l₁ t' →
        (∀ y ∈ l₁, (y.post.core.requests.lookup k).isSome) →
        ∃ q', t'.core.requests.lookup k = some q' ∧ q.Same q' := by
  obtain ⟨hbefore, he, -⟩ := hrun.of_transition
  have hreach : x.pre.IsReachable verify := ⟨t₀, tr, h₀, hbefore⟩
  obtain ⟨r, q, hprices, hpending, hq⟩ := prices_of_becomesClaimable hreach.tallied.coherent he hx
  obtain ⟨tr₁, c, tr₂, r₀, rfl, hnone, hopened, hsame, hopen, hposted, hversion⟩ :=
    pending_since h₀ hbefore hprices.found hpending
  have hlt := hprices.fresh (hfresh x (by simp))
  -- the version has moved since the request was opened, so there is an update in between
  obtain ⟨-, hec, hsince⟩ := hbefore.of_transition
  rcases last_posted hsince with ⟨-, hquote⟩ | ⟨l₁, p, l₂, rfl, hp, hl₂, hquote⟩
  · exfalso
    have hcquote : c.post.core.quote = c.pre.core.quote := by
      rcases execManaged_quote hec with ⟨-, hsame⟩ | ⟨_, u, _, -, hu, -⟩
      · exact hsame
      · rw [hposted] at hu
        cases hu
    have hsameversion : x.pre.core.vault.navVersion = c.pre.core.vault.navVersion :=
      congrArg Quote.version (hquote.trans hcquote)
    omega
  · have hpe : execManaged verify p.pre p.act = .ok p.post := hsince.exec_of_mem (by simp)
    have hslot : x.pre.core.vault.lastNavUpdateSlot = p.pre.core.clock.slot :=
      (congrArg Quote.slot hquote).trans (slot_of_posted hpe hp)
    have hprice : q.price = x.pre.core.price r.shareMintAddress := by rw [hprices.became]
    have hstate : q.requestState = .claimable := by rw [hprices.became]
    refine ⟨r, q, ⟨hprices.found, hq, ?_, hprices.amount, tr₁, c, l₁, p, l₂, by simp,
      ⟨hnone, r₀, hopened, hsame⟩, hopen, hp, hl₂, ?_, fun hmax => ?_⟩, ?_⟩
    · have hbecame := hprices.became
      rw [← hprice] at hbecame
      exact hbecame
    · rw [hprice]
      exact congrFun (congrArg Quote.price hquote) _
    · rw [← hslot]
      exact hprices.notStale hmax
    · rintro l₁ l₂ t' - hrun' hl₁
      exact claimable_stays hrun' hq hstate hl₁

open Scenario in
/-- **Non-vacuity.** A deposit made at a NAV of 10 is approved at the 20 posted after it. -/
theorem fresh_pricing_of_deposit : ∃ t₀ tr x t r q, ManagedState.Created t₀ ∧
    ManagedRun noCalls t₀ (tr ++ x :: []) t ∧ PricedAfresh tr x (address 100) r q ∧
      q.price = 20 := by
  obtain ⟨t₀, tr, t, h₀, hrun, hacts, hp⟩ := exists_managed_run
    ([start, post 10, deposit 100 senior 100, post 20,
      approve 100 senior .deposit 100 1].map .core)
    (fun tr _ => tr.all (fun y => y.pre.core.vault.requireFreshNav) &&
      tr.getLast?.any fun x =>
        ((x.post.core.requests.lookup (address 100)).any fun q =>
          q.requestState = .claimable && q.price = 20) &&
        (x.pre.core.requests.lookup (address 100)).all fun r => r.requestState ≠ .claimable)
    (by decide +kernel)
  obtain ⟨tr₁, l, rfl, -, hl⟩ := List.map_eq_append_iff.1 (show tr.map Transition.act =
    ([start, post 10, deposit 100 senior 100, post 20].map .core) ++
      [.core (approve 100 senior .deposit 100 1)] from hacts)
  obtain ⟨x, l, rfl, -, hl⟩ := List.map_eq_cons_iff.1 hl
  obtain rfl := List.map_eq_nil_iff.1 hl
  simp only [List.getLast?_concat, Option.any_some, Bool.and_eq_true, List.all_eq_true,
    Option.any_eq_true, Option.all_eq_true, decide_eq_true_eq] at hp
  obtain ⟨hfresh, ⟨q, hq, hstate, hprice⟩, hbefore⟩ := hp
  obtain ⟨r, q', hpriced, -⟩ := fresh_pricing h₀ hrun hfresh ⟨⟨q, hq, hstate⟩, hbefore⟩
  refine ⟨t₀, tr₁, x, t, r, q', h₀, hrun, hpriced, ?_⟩
  obtain rfl := Option.some.inj (hq.symm.trans hpriced.after)
  exact hprice

end AsyncVault
