/-
AsyncVault/Lifecycle.lean

The life of a request, and the conservation of shares.

The transitions of a run that move the request at a given address, naming an
operator apart, fall into lives.  A life opens with what its owner gives up and
ends with the account closed, and on the way exactly one transition pays its
owner: the claim of an approved request, or the refund, at once or on canceling,
of a request that was never approved.  An approval moves assets between the
escrow and the reserve and pays nobody but the fee recipients.  What is still
open at the end of the run is a life broken off before its end, and the account
says where.

Every transition says what it does to the committed shares; but for approvals,
instant settlements, fee mints and burns by holders, they stay as they are.  Of
venues and policies neither requests nor shares know anything.
-/
import AsyncVault.FeeConservation

namespace AsyncVault

open Checked TokenLedger KeyedStore OrderBook Machine

variable {s s' : VaultState} {k m : Pubkey} {r q : Request} {verify : MerkleCheck}
variable {x₀ x x' : ManagedState} {a : ManagedAction} {remaining : List AccountInfo}
variable {tr rest : List (Transition ManagedState ManagedAction)}

/-! ### Transitions of one request -/

/-- The transitions of a run that move the request at `k`. -/
def history (k : Pubkey) (tr : List (Transition ManagedState ManagedAction)) :
    List (Transition ManagedState ManagedAction) :=
  tr.filter fun t => Moves k t.act.event

/-- What an approval books: the amount of a deposit leaves its escrow, what a redemption comes to
leaves the reserve, for the other of the two and, in part, for the fee recipients; and no shares are
created or destroyed. -/
structure Unpaid (s s' : VaultState) (r : Request) : Prop where
  mints : s'.token.mints = s.token.mints
  booked : match r.requestType with
    | .deposit => ∃ net f fa pa, Disbursed s s' s.vault.pendingVault s.vault.vaultTokenAccount []
        r.amount net f fa pa
    | .redeem => ∃ gross net f fa pa, Disbursed s s' s.vault.vaultTokenAccount
        s.vault.pendingVault [] gross net f fa pa

/-- The transition opens `r` at the free address `k` and takes what it asks for. -/
structure Opens (k : Pubkey) (r : Request) (t : Transition ManagedState ManagedAction) :
    Prop where
  event : t.act.event = .opened k
  before : t.pre.core.requests.lookup k = none
  after : t.post.core.requests.lookup k = some r
  state : r.requestState = .pending
  taken : Taken t.pre.core t.post.core.token r

/-- The transition approves the pending request `r`, which is `q` from then on, and pays nothing
out for it. -/
structure Approves (k : Pubkey) (r q : Request) (t : Transition ManagedState ManagedAction) :
    Prop where
  event : t.act.event = .approved k
  before : ∃ r', t.pre.core.requests.lookup k = some r' ∧ r.Same r'
  after : t.post.core.requests.lookup k = some q
  became : q = { r with
    operator := q.operator
    amount := q.amount
    price := q.price
    requestState := .claimable }
  unpaid : Unpaid t.pre.core t.post.core r

/-- The transition pays the claimable request `q` to its owner and closes it. -/
structure Claims (k : Pubkey) (q : Request) (t : Transition ManagedState ManagedAction) :
    Prop where
  event : t.act.event = .claimed k
  before : ∃ q', t.pre.core.requests.lookup k = some q' ∧ q.Same q'
  after : t.post.core.requests.lookup k = none
  paid : Settled t.pre.core t.post.core.token q

/-- The transition pays the pending request `r` back to its owner and closes it. -/
structure Refunds (k : Pubkey) (r : Request) (t : Transition ManagedState ManagedAction) :
    Prop where
  event : t.act.event = .refunded k
  before : ∃ r', t.pre.core.requests.lookup k = some r' ∧ r.Same r'
  after : t.post.core.requests.lookup k = none
  paid : Refunded t.pre.core t.post.core.token r

/-- The transition pays the pending request `r` back to its owner and keeps it as
canceled. -/
structure Cancels (k : Pubkey) (r : Request) (t : Transition ManagedState ManagedAction) :
    Prop where
  event : t.act.event = .canceled k
  before : ∃ r', t.pre.core.requests.lookup k = some r' ∧ r.Same r'
  after : ∃ q, t.post.core.requests.lookup k = some q ∧
    q = { r with operator := q.operator, requestState := .canceled }
  paid : Refunded t.pre.core t.post.core.token r

/-- The transition closes a canceled request and moves no tokens. -/
structure Skips (k : Pubkey) (r : Request) (t : Transition ManagedState ManagedAction) :
    Prop where
  event : t.act.event = .skipped k
  before : ∃ q, t.pre.core.requests.lookup k = some q ∧
    q = { r with operator := q.operator, requestState := .canceled }
  after : t.post.core.requests.lookup k = none
  unpaid : t.post.core.token = t.pre.core.token

/-! ### Lives -/

/-- A complete life of a request: three ways from its opening to the closing of
its account, each of which pays once. -/
inductive Life (k : Pubkey) : List (Transition ManagedState ManagedAction) → Prop
  | claimed {r q : Request} {t₁ t₂ t₃ : Transition ManagedState ManagedAction}
      (opened : Opens k r t₁)
      (approved : Approves k r q t₂) (claimed : Claims k q t₃) : Life k [t₁, t₂, t₃]
  | refunded {r : Request} {t₁ t₂ : Transition ManagedState ManagedAction} (opened : Opens k r t₁)
      (refunded : Refunds k r t₂) : Life k [t₁, t₂]
  | canceled {r : Request} {t₁ t₂ t₃ : Transition ManagedState ManagedAction}
      (opened : Opens k r t₁)
      (canceled : Cancels k r t₂) (skipped : Skips k r t₃) : Life k [t₁, t₂, t₃]

/-- A life broken off, and the account it left. -/
inductive Unfinished (k : Pubkey) : Option Request → List (Transition ManagedState ManagedAction) →
    Prop
  | closed : Unfinished k none []
  | pending {r q : Request} {t₁ : Transition ManagedState ManagedAction} (opened : Opens k r t₁)
      (same : r.Same q) : Unfinished k (some q) [t₁]
  | claimable {r q q' : Request} {t₁ t₂ : Transition ManagedState ManagedAction}
      (opened : Opens k r t₁)
      (approved : Approves k r q t₂) (same : q.Same q') : Unfinished k (some q') [t₁, t₂]
  | canceled {r q : Request} {t₁ t₂ : Transition ManagedState ManagedAction} (opened : Opens k r t₁)
      (canceled : Cancels k r t₂)
      (same : q = { r with operator := q.operator, requestState := .canceled }) :
      Unfinished k (some q) [t₁, t₂]

/-- The history of a request is a sequence of complete lives and at most one
unfinished life, which ends at the account as it is. -/
def Lived (k : Pubkey) (o : Option Request) (h : List (Transition ManagedState ManagedAction)) :
    Prop :=
  ∃ (lives : List (List (Transition ManagedState ManagedAction))) (rest : List _),
    h = lives.flatten ++ rest ∧ (∀ l ∈ lives, Life k l) ∧ Unfinished k o rest

variable {t : Transition ManagedState ManagedAction}

/-! ### Where a life stands -/

theorem Unfinished.of_pending (h : Unfinished k (some q) rest) (hq : q.requestState = .pending) :
    ∃ r t₁, rest = [t₁] ∧ Opens k r t₁ ∧ r.Same q := by
  cases h with
  | pending opened same => exact ⟨_, _, rfl, opened, same⟩
  | claimable opened approved same =>
    rw [same, approved.became] at hq
    cases hq
  | canceled opened canceled same =>
    rw [same] at hq
    cases hq

theorem Unfinished.of_claimable (h : Unfinished k (some q) rest)
    (hq : q.requestState = .claimable) :
    ∃ r q' t₁ t₂, rest = [t₁, t₂] ∧ Opens k r t₁ ∧ Approves k r q' t₂ ∧ q'.Same q := by
  cases h with
  | pending opened same =>
    have hstate := opened.state
    rw [same] at hq
    exact absurd (hstate.symm.trans hq) (by decide)
  | claimable opened approved same => exact ⟨_, _, _, _, rfl, opened, approved, same⟩
  | canceled opened canceled same =>
    rw [same] at hq
    cases hq

theorem Unfinished.of_canceled (h : Unfinished k (some q) rest)
    (hq : q.requestState = .canceled) :
    ∃ r t₁ t₂, rest = [t₁, t₂] ∧ Opens k r t₁ ∧ Cancels k r t₂ ∧
      q = { r with operator := q.operator, requestState := .canceled } := by
  cases h with
  | pending opened same =>
    have hstate := opened.state
    rw [same] at hq
    exact absurd (hstate.symm.trans hq) (by decide)
  | claimable opened approved same =>
    rw [same, approved.became] at hq
    cases hq
  | canceled opened canceled same => exact ⟨_, _, _, rfl, opened, canceled, same⟩

/-- Naming an operator changes no life. -/
theorem Unfinished.touched {operator : Option Pubkey} (h : Unfinished k (some q) rest) :
    Unfinished k (some { q with operator := operator }) rest := by
  cases h with
  | pending opened same =>
    refine .pending opened ?_
    rw [same]
    rfl
  | claimable opened approved same =>
    refine .claimable opened approved ?_
    rw [same]
    rfl
  | canceled opened canceled same =>
    refine .canceled opened canceled ?_
    rw [same]

/-! ### One transition -/

/-- The operator has no part in what a refund pays. -/
theorem Request.Same.refunded {token : Ledger Pubkey} (h : r.Same q) (hp : Refunded s token q) :
    Refunded s token r := by
  rw [h] at hp
  exact hp

theorem Request.Same.settled {token : Ledger Pubkey} (h : r.Same q) (hp : Settled s token q) :
    Settled s token r := by
  rw [h] at hp
  exact hp

theorem Request.Same.unpaid (h : r.Same q) (hu : Unpaid s s' q) : Unpaid s s' r := by
  rw [h] at hu
  exact ⟨hu.mints, hu.booked⟩

/-- A transition that moves the request takes its unfinished life one stage
further, or to its end; any other leaves it where it stands. -/
structure Advances (k : Pubkey) (rest : List (Transition ManagedState ManagedAction))
    (t : Transition ManagedState ManagedAction) :
    Prop where
  moved : Moves k t.act.event →
    Unfinished k (t.post.core.requests.lookup k) (rest ++ [t]) ∨
      Life k (rest ++ [t]) ∧ t.post.core.requests.lookup k = none
  kept : ¬Moves k t.act.event → Unfinished k (t.post.core.requests.lookup k) rest

/-- **One transition of a request.** -/
theorem RequestEffect.advances (h : RequestEffect t.pre.core t.post.core k t.act.event)
    (hunpaid : ∀ q, t.act.event = .approved k → t.pre.core.requests.lookup k = some q →
      Unpaid t.pre.core t.post.core q)
    (hu : Unfinished k (t.pre.core.requests.lookup k) rest) : Advances k rest t := by
  generalize he : t.act.event = e at h
  cases h with
  -- a life begins where there is no request
  | @opened r free state ok requests taken =>
    refine ⟨fun _ => ?_, fun hm => absurd (by rw [he]; rfl) hm⟩
    rw [free] at hu
    cases hu
    have hafter : t.post.core.requests.lookup k = some r := by rw [requests, AList.lookup_insert]
    rw [hafter]
    exact .inl (.pending ⟨he, free, hafter, state, taken⟩ rfl)
  -- each later transition fits the unfinished life by the state of the request
  | @approved q amount price found state requests =>
    refine ⟨fun _ => ?_, fun hm => absurd (by rw [he]; rfl) hm⟩
    rw [found] at hu
    obtain ⟨r, t₁, rfl, hopen, hsame⟩ := hu.of_pending state
    have hafter : t.post.core.requests.lookup k =
        some { q with amount := amount, price := price, requestState := .claimable } := by
      rw [requests, AList.lookup_insert]
    rw [hafter]
    refine .inl (.claimable hopen
      ⟨he, ⟨q, found, hsame⟩, hafter, ?_, hsame.unpaid (hunpaid q he found)⟩ rfl)
    rw [hsame]
  | @claimed q found state requests paid =>
    refine ⟨fun _ => ?_, fun hm => absurd (by rw [he]; rfl) hm⟩
    rw [found] at hu
    obtain ⟨r, q', t₁, t₂, rfl, hopen, happrove, hsame⟩ := hu.of_claimable state
    have hafter : t.post.core.requests.lookup k = none := by rw [requests, AList.lookup_erase]
    exact .inr ⟨.claimed hopen happrove ⟨he, ⟨q, found, hsame⟩, hafter, hsame.settled paid⟩, hafter⟩
  | @refunded q found state requests paid =>
    refine ⟨fun _ => ?_, fun hm => absurd (by rw [he]; rfl) hm⟩
    rw [found] at hu
    obtain ⟨r, t₁, rfl, hopen, hsame⟩ := hu.of_pending state
    have hafter : t.post.core.requests.lookup k = none := by rw [requests, AList.lookup_erase]
    exact .inr ⟨.refunded hopen ⟨he, ⟨q, found, hsame⟩, hafter, hsame.refunded paid⟩, hafter⟩
  | @canceled q found state requests paid =>
    refine ⟨fun _ => ?_, fun hm => absurd (by rw [he]; rfl) hm⟩
    rw [found] at hu
    obtain ⟨r, t₁, rfl, hopen, hsame⟩ := hu.of_pending state
    have hafter : t.post.core.requests.lookup k = some { q with requestState := .canceled } := by
      rw [requests, AList.lookup_insert]
    have hcanceled : { q with requestState := .canceled } =
        { r with operator := q.operator, requestState := .canceled } := by rw [hsame]
    rw [hafter]
    exact .inl (.canceled hopen
      ⟨he, ⟨q, found, hsame⟩, ⟨_, hafter, hcanceled⟩, hsame.refunded paid⟩ hcanceled)
  | @skipped q found state requests unpaid =>
    refine ⟨fun _ => ?_, fun hm => absurd (by rw [he]; rfl) hm⟩
    rw [found] at hu
    obtain ⟨r, t₁, t₂, rfl, hopen, hcancel, hsame⟩ := hu.of_canceled state
    have hafter : t.post.core.requests.lookup k = none := by rw [requests, AList.lookup_erase]
    exact .inr ⟨.canceled hopen hcancel ⟨he, ⟨q, found, hsame⟩, hafter, unpaid⟩, hafter⟩
  -- naming an operator is no part of the life
  | @touched q operator found requests unpaid =>
    refine ⟨fun hm => ?_, fun _ => ?_⟩
    · rw [he] at hm
      exact hm.elim
    rw [found] at hu
    rw [requests, AList.lookup_insert]
    exact hu.touched

/-- An approval pays its request to nobody. -/
theorem approveRequest_unpaid {ctx : ApproveRequest} {args : ApproveRequestArgs}
    (hr : s.requests.lookup ctx.request = some r)
    (h : approveRequest s ctx args remaining = .ok s') : Unpaid s s' r := by
  cases ht : r.requestType with
  | deposit =>
    obtain ⟨fee, net, _, _, f, fa, pa, hbooked, -, hsum, -⟩ := approveDeposit_books hr ht h
    refine ⟨hbooked.paid.mints, ?_⟩
    rw [ht, ← hsum]
    exact ⟨net, f, fa, pa, hbooked.paid.disbursed⟩
  | redeem =>
    obtain ⟨gross, fee, net, _, f, fa, pa, hbooked, -⟩ := approveRedeem_books hr ht h
    refine ⟨hbooked.paid.mints, ?_⟩
    rw [ht]
    exact ⟨fee + net, net, f, fa, pa, hbooked.paid.disbursed⟩

/-- A transition about no request leaves every life where it is. -/
theorem Advances.of_requests (hm : ¬Moves k t.act.event)
    (hr : t.post.core.requests = t.pre.core.requests)
    (hu : Unfinished k (t.pre.core.requests.lookup k) rest) : Advances k rest t := by
  refine ⟨fun h => absurd h hm, fun _ => ?_⟩
  rw [hr]
  exact hu

/-- Every transition takes the life of every request one stage further, to its
end, or leaves it where it is. -/
theorem execManaged_advances (hs : x.core.Minting) (ha : a.Unmanaged)
    (h : execManaged verify x a = .ok x') (hu : Unfinished k (x.core.requests.lookup k) rest) :
    Advances k rest ⟨x, a, x'⟩ := by
  cases a with
  | core b =>
    simp only [execManaged, bind_eq_ok, pure_eq_ok] at h
    obtain ⟨c, hc, rfl⟩ := h
    have hothers : (∀ i remaining, b ≠ .request i remaining) → ¬Moves k b.event →
        Advances k rest ⟨x, .core b, { x with core := c }⟩ := fun hb hm =>
      .of_requests hm (exec_requests hs hc hb) hu
    cases b with
    | request i remaining =>
      obtain ⟨heffect, -⟩ := execRequest_ok hs hc
      by_cases hk : k = i.request
      · subst hk
        refine RequestEffect.advances heffect (fun q he hq => ?_) hu
        -- only an approval is called one
        cases i with
        | approveRequest ctx args => exact approveRequest_unpaid hq hc
        | _ => cases he
      · obtain ⟨hne, hlookup⟩ := heffect.elsewhere hk
        refine ⟨fun hm => absurd hm hne, fun _ => ?_⟩
        show Unfinished k (c.requests.lookup k) rest
        rwa [hlookup]
    | world w => exact hothers (by rintro _ _ ⟨⟩) (by cases w <;> exact id)
    | _ => exact hothers (by rintro _ _ ⟨⟩) id
  | venue i => exact .of_requests id (execVenue_kept hs.coherent h).requests hu
  | policy i => exact .of_requests id (by rw [execPolicy_core h]) hu
  | manageVault => exact ha.elim

/-! ### Along a run -/

theorem history_snoc (k : Pubkey) (tr : List (Transition ManagedState ManagedAction))
    (t : Transition ManagedState ManagedAction) :
    history k (tr ++ [t]) = history k tr ++ if Moves k t.act.event then [t] else [] := by
  unfold history
  rw [List.filter_append]
  by_cases hm : Moves k t.act.event <;> simp [hm]

/-- **The history of every request** is a sequence of complete lives and an
unfinished one. -/
theorem lived_of_run (h₀ : x₀.Created) (hrun : ManagedRun verify x₀ tr x)
    (hunmanaged : ∀ t ∈ tr, t.act.Unmanaged) (k : Pubkey) :
    Lived k (x.core.requests.lookup k) (history k tr) := by
  induction hrun with
  | nil =>
    refine ⟨[], [], rfl, nofun, ?_⟩
    obtain ⟨_, _, _, hcreate⟩ := h₀.core
    obtain ⟨-, -, -, -, hempty⟩ := createVault_state hcreate
    rw [hempty]
    exact .closed
  | @snoc tr x x' a hrun hexec ih =>
    -- what holds of the prefix: it has no managed calls, and lives that are told
    have hbefore : ∀ t ∈ tr, t.act.Unmanaged := fun t ht =>
      hunmanaged t (List.mem_append_left _ ht)
    have hw := (ManagedRun.custodial hrun h₀ hbefore).ledgered.wellFormed
    obtain ⟨lives, rest, heq, hlives, hrest⟩ := ih hbefore
    have hadv := execManaged_advances hw.minting (hunmanaged ⟨x, a, x'⟩ (by simp)) hexec hrest
    rw [history_snoc, heq]
    by_cases hm : Moves k a.event
    · rw [if_pos hm]
      rcases hadv.moved hm with hnext | ⟨hlife, hnone⟩
      · exact ⟨lives, rest ++ [⟨x, a, x'⟩], by rw [List.append_assoc], hlives, hnext⟩
      · -- the life is complete; the next one has not begun
        refine ⟨lives ++ [rest ++ [⟨x, a, x'⟩]], [], by simp, fun l hl => ?_, ?_⟩
        · rcases List.mem_append.1 hl with hl | hl
          · exact hlives l hl
          · rwa [List.mem_singleton.1 hl]
        · show Unfinished k (x'.core.requests.lookup k) []
          rw [hnone]
          exact .closed
    · rw [if_neg hm]
      exact ⟨lives, rest, by rw [List.append_nil], hlives, hadv.kept hm⟩

/-! ### Shares -/

/-- The share mints of a vault as its order book knows them. -/
theorem mem_shareMints_iff (hv : s.terms.Valid s.token) :
    m ∈ s.terms.shareMints ↔ m = s.book.share ∨ s.book.IsTranche m := by
  have hshare : s.vault.shareMint ∈ s.terms.shareMints := hv.coherent.shareMint_mem
  cases htc : s.trancheConfig with
  | none =>
    have hnone : s.book.tranches = none := by simp [VaultState.book, htc]
    constructor
    · exact fun hm => .inl (VaultState.share_of_plain hm hnone)
    · rintro (rfl | ⟨t, ht, -⟩)
      · exact hshare
      · rw [hnone] at ht
        cases ht
  | some tc =>
    rw [VaultState.mem_shareMints htc] at hshare ⊢
    constructor
    · exact fun hm => .inr ⟨_, VaultState.book_tranches htc, hm⟩
    · rintro (rfl | ⟨t, ht, hm⟩)
      · exact hshare
      · rw [VaultState.book_tranches htc, Option.some.injEq] at ht
        rw [← ht] at hm
        exact hm

/-- A share mint of the vault stays one. -/
theorem exec_shareMints (hw : s.WellFormed) {b : Action} (h : exec s b = .ok s')
    (hm : m ∈ s.terms.shareMints) : m ∈ s'.terms.shareMints := by
  have hr := exec_refines hw h
  rw [mem_shareMints_iff hw.terms] at hm
  rw [mem_shareMints_iff hr.wellFormed.terms]
  rcases hm with rfl | ⟨t, ht, hm⟩
  · exact .inl hr.step.share_eq.symm
  · refine .inr ⟨t, ?_, hm⟩
    rw [hr.step.tranches_eq (by rw [ht]; nofun), ht]

/-- How an event may change the committed shares of `m`: an approval adds exactly
what the deposit is owed, or takes exactly what the redemption gave up; an
instant settlement moves them as it moves the live supply, and so does a
performance fee; nothing else but a burn by a holder of `m` changes them. -/
def SharesMoved (s : VaultState) (e : Event Pubkey) (s' : VaultState) (m : Pubkey) : Prop :=
  match e with
  | .approved k => ∃ r q, s.requests.lookup k = some r ∧ s'.requests.lookup k = some q ∧
      match r.requestType with
      | .deposit => s'.committedShares m =
          s.committedShares m + if r.shareMintAddress = m then q.amount else 0
      | .redeem => s'.committedShares m + (if r.shareMintAddress = m then r.amount else 0) =
          s.committedShares m
  | .instantDeposit => ∃ minted, s'.token.supply m = s.token.supply m + minted ∧
      s'.committedShares m = s.committedShares m + minted
  | .instantRedeem => ∃ burned, s'.token.supply m + burned = s.token.supply m ∧
      s'.committedShares m + burned = s.committedShares m
  | .posted => ∃ minted, s'.token.supply m = s.token.supply m + minted ∧
      s'.committedShares m = s.committedShares m + minted ∧
      (s.vault.performanceFeeBps = 0 → minted = 0)
  | .burned m' => m' ≠ m → s'.committedShares m = s.committedShares m
  | _ => s'.committedShares m = s.committedShares m

/-- Without a change of requests the committed shares move as the live supply. -/
theorem committedShares_of_requests (h : s'.requests = s.requests) (m : Pubkey) :
    s'.committedShares m + s.token.supply m = s.committedShares m + s'.token.supply m := by
  unfold VaultState.committedShares VaultState.claimableDeposits VaultState.pendingRedeems
    VaultState.amounts
  rw [h]
  omega

/-- What the order book says of a request instruction, said of the state. -/
theorem RequestEffect.sharesMoved {e : Event Pubkey} (heffect : RequestEffect s s' k e)
    (hchange : s.book.ShareChange e s'.book m) (hs : s.book.committed m = s.committedShares m)
    (hs' : s'.book.committed m = s'.committedShares m) : SharesMoved s e s' m := by
  cases heffect with
  | @approved r amount price found state requests =>
    have hafter : s'.requests.lookup k =
        some { r with amount := amount, price := price, requestState := .claimable } := by
      rw [requests, AList.lookup_insert]
    refine ⟨r, _, found, hafter, ?_⟩
    obtain ⟨o, o', ho, ho', hmoved⟩ := hchange
    rw [VaultState.lookup_book found, Option.some.injEq] at ho
    rw [VaultState.lookup_book hafter, Option.some.injEq] at ho'
    subst ho ho'
    rw [hs, hs'] at hmoved
    cases ht : r.requestType with
    | deposit =>
      simp only [Request.order, ht, RequestType.side] at hmoved
      exact hmoved
    | redeem =>
      simp only [Request.order, ht, RequestType.side] at hmoved
      exact hmoved
  | _ =>
    show s'.committedShares m = s.committedShares m
    rw [← hs, ← hs']
    exact hchange

/-- **One instruction of the core and the committed shares.** -/
theorem exec_sharesMoved (hw : s.WellFormed) {b : Action} (h : exec s b = .ok s')
    (hm : m ∈ s.terms.shareMints) : SharesMoved s b.event s' m := by
  have hr := exec_refines hw h
  have hchange := hr.step.shareChange m
  have hs := VaultState.book_committed hm
  have hs' := VaultState.book_committed (exec_shareMints hw h hm)
  -- the other actions leave the requests, so committed shares and supply move together
  have hkept : (∀ i remaining, b ≠ .request i remaining) →
      s'.committedShares m + s.token.supply m = s.committedShares m + s'.token.supply m := fun ha =>
    committedShares_of_requests (exec_requests hw.minting h ha) m
  cases b with
  | request i remaining => exact (execRequest_ok hw.minting h).1.sharesMoved hchange hs hs'
  | instantDeposit ctx amount remaining =>
    have hkept := hkept fun _ _ => nofun
    obtain ⟨n, hn⟩ := hchange
    rw [hs, hs'] at hn
    exact ⟨_, by omega, hn⟩
  | instantRedeem ctx shares remaining =>
    have hkept := hkept fun _ _ => nofun
    obtain ⟨n, hn⟩ := hchange
    rw [hs, hs'] at hn
    exact ⟨_, by omega, hn⟩
  | updateVaultNav authority updatedNav remaining =>
    have hkept := hkept fun _ _ => nofun
    obtain ⟨n, hn⟩ := hchange
    rw [hs, hs'] at hn
    refine ⟨_, by omega, hn, fun hfee => ?_⟩
    rw [updateVaultNav_unissued hw.terms.coherent h hfee] at hkept
    omega
  | config i =>
    show s'.committedShares m = s.committedShares m
    rw [← hs, ← hs']
    exact hchange
  | world w =>
    cases w with
    | burn authority program src mint amount =>
      -- burning their shares is up to the holders
      intro hne
      rw [← hs, ← hs']
      exact hchange hne
    | burnDelegated delegate program src mint amount =>
      intro hne
      rw [← hs, ← hs']
      exact hchange hne
    | _ =>
      show s'.committedShares m = s.committedShares m
      rw [← hs, ← hs']
      exact hchange

/-- **One transition and the committed shares.** -/
theorem execManaged_sharesMoved (hw : x.core.WellFormed) (ha : a.Unmanaged)
    (h : execManaged verify x a = .ok x') (hm : m ∈ x.core.terms.shareMints) :
    SharesMoved x.core a.event x'.core m := by
  cases a with
  | core b =>
    simp only [execManaged, bind_eq_ok, pure_eq_ok] at h
    obtain ⟨c, hc, rfl⟩ := h
    exact exec_sharesMoved hw hc hm
  | venue i =>
    have hmoved := committedShares_of_requests (execVenue_kept hw.terms.coherent h).requests m
    simp only [Ledger.supply, execVenue_mints hw.terms.coherent h] at hmoved
    exact Nat.add_right_cancel hmoved
  | policy i =>
    rw [execPolicy_core h]
    exact rfl
  | manageVault => exact ha.elim

/-! ### The life of every request -/

/-- **Exactly-once settlement and conservation of shares.** In every run without managed calls, what
happened to the request at any address is a sequence of complete lives and one
unfinished life; and every transition moves the committed shares of every share
mint only as its kind may. -/
theorem settled_once (h₀ : x₀.Created) (hrun : ManagedRun verify x₀ tr x)
    (hunmanaged : ∀ t ∈ tr, t.act.Unmanaged) :
    (∀ k, Lived k (x.core.requests.lookup k) (history k tr)) ∧
    ∀ t ∈ tr, ∀ m ∈ t.pre.core.terms.shareMints,
      SharesMoved t.pre.core t.act.event t.post.core m := by
  refine ⟨lived_of_run h₀ hrun hunmanaged, fun t ht m hm => ?_⟩
  obtain ⟨tr₁, tr₂, heq, hpre, hexec⟩ := hrun.exists_prefix ht
  have hcustodial : Custodial t.pre :=
    ManagedRun.custodial hpre h₀ fun y hy => hunmanaged y
      (by rw [heq]; exact List.mem_append_left _ hy)
  exact execManaged_sharesMoved hcustodial.ledgered.wellFormed (hunmanaged t ht) hexec hm

open Scenario in
/-- **Non-vacuity.** A deposit of 500 is approved and claimed; a position is opened, the address is
used again, and the second deposit is still pending. -/
theorem settled_once_twice :
    ∃ x₀ tr x, ManagedState.Created x₀ ∧ ManagedRun noCalls x₀ tr x ∧
      (history (address 100) tr).length = 4 ∧ x.core.committedShares senior = 500 ∧
      Lived (address 100) (x.core.requests.lookup (address 100)) (history (address 100) tr) := by
  obtain ⟨x₀, tr, x, h₀, hrun, -, hp⟩ := exists_managed_run
    ([anyNav, start, post 1, deposit 100 senior 500, approve 100 senior .deposit 500 1,
      collect 100 senior].map .core ++ openVenue ++ [.core (deposit 100 senior 70)])
    (fun tr x => (∀ t ∈ tr, t.act.Unmanaged) ∧ (history (address 100) tr).length = 4 ∧
      x.core.committedShares senior = 500) (by decide +kernel)
  obtain ⟨hunmanaged, hlength, hcommitted⟩ := of_decide_eq_true hp
  exact ⟨x₀, tr, x, h₀, hrun, hlength, hcommitted, (settled_once h₀ hrun hunmanaged).1 _⟩

namespace Scenario

/-- The asset belongs to the newer token program. -/
def newerWorld : World :=
  { world 0 0 with token := { token 0 0 with
      mints := Function.update (token 0 0).mints asset
        (some { mint 0 1000000000 with program := .token2022 }) } }

/-- Deposit 100 assets, which are charged 10% for a transfer from then on. -/
def chargedDeposit : List ManagedAction :=
  [.core start,
    .core (.request (.createDepositRequest
      { user := user
        assetMint := asset
        shareMint := senior
        vaultAsset := none
        request := address 100
        userTokenAccount := userAsset
        pendingVault := pendingVault
        assetTokenProgram := .token2022 } ⟨100, none⟩) []),
    .core (.world (.setTransferFee issuer asset 1000 1000))]

/-- The user takes the deposit back. -/
def takeBack : RequestInstruction :=
  .cancelRequest user
    { assetMint := asset
      shareMint := senior
      vaultAsset := none
      request := address 100
      userTokenAccount := some userAsset
      assetPendingVault := some pendingVault
      userShareAccount := none
      shareTokenProgram := none
      assetTokenProgram := some .token2022 }

end Scenario

open Scenario in
/-- **A refund that falls short of what was escrowed.** The mint of the asset charges a transfer fee
since the deposit: 100 assets leave the escrow, and no account of the owner gains as many. -/
theorem refund_charged :
    ∃ x₀ tr x a x' r, ManagedState.Created x₀ ∧ ManagedRun noCalls x₀ tr x ∧
      (∀ t ∈ tr, t.act.Unmanaged) ∧ execManaged noCalls x a = .ok x' ∧
      Refunds (address 100) r ⟨x, a, x'⟩ ∧ r.requestType = .deposit ∧ r.amount = 100 ∧
      ∀ b, x.core.token.Holds b r.assetMintAddress r.owner →
        x'.core.token.balance b < x.core.token.balance b + r.amount := by
  obtain ⟨x₀, tr, x, h₀, hrun, -, hp⟩ := exists_managed_run_in newerWorld
    { accounts with assetTokenProgram := .token2022 } chargedDeposit
    (fun tr x => (∀ t ∈ tr, t.act.Unmanaged) ∧
      (x.core.requests.lookup (address 100)).any (fun r =>
        r.requestType = .deposit ∧ r.amount = 100 ∧
        (x.core.token.mints r.assetMintAddress).any fun y => 0 < y.transferFee 100) ∧
      succeedsWith (execRequest x.core takeBack []) fun _ => true) (by decide +kernel)
  -- what the evaluation of the script checked
  obtain ⟨hunmanaged, hrequest, hback⟩ := of_decide_eq_true hp
  obtain ⟨r, hr, hfacts⟩ := (Option.any_eq_true _ _).1 hrequest
  obtain ⟨htype, hamount, hcharged⟩ := of_decide_eq_true hfacts
  obtain ⟨y, hy, hfee⟩ := (Option.any_eq_true _ _).1 hcharged
  obtain ⟨c, hc, -⟩ := of_succeedsWith hback
  have hw := (ManagedRun.custodial hrun h₀ hunmanaged).ledgered.wellFormed
  obtain ⟨hnone, hpaid⟩ :
      c.requests.lookup (address 100) = none ∧ Refunded x.core c.token r := by
    cases (execRequest_ok hw.minting hc).1 with
    | refunded found state requests paid =>
      obtain rfl := Option.some.inj (hr.symm.trans found)
      exact ⟨by rw [requests]; exact AList.lookup_erase _ _, paid⟩
  refine ⟨x₀, tr, x, .core (.request takeBack []), { x with core := c }, r, h₀, hrun, hunmanaged,
    ?_, ⟨rfl, ⟨r, hr, .refl r⟩, hnone, hpaid⟩, htype, hamount, fun b hb => ?_⟩
  · simp only [execManaged, exec, hc]
    rfl
  · unfold Refunded at hpaid
    rw [htype] at hpaid
    obtain ⟨program, src, dst, -, hdst, hne, htr⟩ := hpaid
    show c.token.balance b < x.core.token.balance b + r.amount
    -- the account that is paid gains what is left after the fee, and no other gains
    by_cases hbd : b = dst
    · subst hbd
      obtain ⟨y', hy', -, hcredit⟩ := htr.balance_dst hne
      obtain rfl := Option.some.inj (hy.symm.trans hy')
      have hfee' := of_decide_eq_true hfee
      rw [hamount] at hcredit ⊢
      omega
    · by_cases hbs : b = src
      · subst hbs
        have hout := htr.balance_src hne
        omega
      · rw [htr.balance_of_ne b hbs hbd]
        omega

end AsyncVault
