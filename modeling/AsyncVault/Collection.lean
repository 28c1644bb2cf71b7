/-
AsyncVault/Collection.lean

Collecting what approved requests are owed.

A claim checks its accounts and makes one payment out of the vault
(`claim_iff`).  Payments to others can be exchanged (`pay_exchange`), so a batch
of claims succeeds in one order exactly when it succeeds in any, with the same
state at the end (`claims_in_any_order`).  While the vault keeps its tokens
nothing but the issuers of the mints and the room in a share supply can be in the
way of a claim (`owed_collectable_iff`), and everything owed that they let through
can be collected, by the owners and in any order (`all_collected_in_any_order`).
-/
import AsyncVault.Exits
import AsyncVault.Removal
import AsyncVault.Lib.Confluence
import AsyncVault.Lib.Payouts

namespace AsyncVault

open Checked TokenLedger KeyedStore Machine

variable {s s' : VaultState} {k m a v : Pubkey} {r : Request} {remaining : List AccountInfo}
variable {ctx : Claim} {p : Payout Pubkey} {token : Ledger Pubkey}

/-! ### Claims in any order -/

/-- The vault owns none of its requests. -/
def VaultState.OwnersApart (s : VaultState) : Prop :=
  ∀ k r, s.requests.lookup k = some r → r.owner ≠ s.key

theorem claim_ownersApart (hs : s.OwnersApart) (h : claim s ctx remaining = .ok s') :
    s'.OwnersApart := by
  obtain ⟨r, p, token, -, -, rfl⟩ := claim_iff.1 h
  intro k r hr
  exact hs k r (VaultState.lookup_of_erase hr)

/-- A claim, as a transaction. -/
def Action.IsClaim (b : Action) : Prop := ∃ ctx remaining, b = .request (.claim ctx) remaining

/-- **Two claims can be exchanged.** -/
theorem claim_exchanges {b b' : Action} (hb : b.IsClaim) (hb' : b'.IsClaim) :
    Exchanges exec VaultState.OwnersApart b b' := by
  obtain ⟨ctx, remaining, rfl⟩ := hb
  obtain ⟨ctx', remaining', rfl⟩ := hb'
  intro s s₁ s₂ hs h h'
  obtain ⟨r, p, token₁, haccepted, hpay, rfl⟩ := claim_iff.1 h
  obtain ⟨r', p', token₂, haccepted', hpay', rfl⟩ := claim_iff.1 h'
  have hfound' := VaultState.lookup_of_erase haccepted'.found
  -- the second claim is for another request, which the first one left there
  have hne : ctx'.request ≠ ctx.request := by
    intro he
    have hgone := haccepted'.found
    rw [he] at hgone
    simp [VaultState.put] at hgone
  have ho := haccepted.outward (hs _ _ haccepted.found)
  have hshape := (pay_ok ho hpay).shape
  have hback : ctx'.Accepted s remaining' r' p' := haccepted'.put hshape.symm hfound'
  have ho' := hback.outward (hs _ _ hfound')
  obtain ⟨token', hfirst, hsecond⟩ := pay_exchange ho ho' hpay hpay'
  refine ⟨s.put token' (s.requests.erase ctx'.request), claim_iff.2
    ⟨r', p', token', hback, hfirst, rfl⟩, ?_⟩
  have hthere : ctx.Accepted (s.put token' (s.requests.erase ctx'.request)) remaining r p :=
    haccepted.put (pay_ok ho' hfirst).shape (by
      rw [AList.lookup_erase_ne hne.symm]
      exact haccepted.found)
  refine claim_iff.2 ⟨r, p, token₂, hthere, hsecond, ?_⟩
  show _ = s.put token₂ ((s.requests.erase ctx'.request).erase ctx.request)
  rw [AList.erase_erase]
  rfl

variable {verify : MerkleCheck} {t : ManagedState}

theorem ManagedState.IsReachable.ownersApart (ht : t.IsReachable verify) : t.core.OwnersApart :=
  fun k r hr => (ht.tallied.requests k r hr).owner

/-- A batch of claims that succeeds in one order succeeds in every order. -/
theorem plays_perm_of_claims (hs : s.OwnersApart) {as bs : List Action}
    (hclaims : ∀ b ∈ as, b.IsClaim) (hperm : as.Perm bs) (h : Plays exec s as s') :
    Plays exec s bs s' := by
  refine h.perm hperm (I := VaultState.OwnersApart) (fun b hb s s' hs he => ?_)
    (fun b hb b' hb' => claim_exchanges (hclaims b hb) (hclaims b' hb')) hs
  obtain ⟨ctx, remaining, rfl⟩ := hclaims b hb
  exact claim_ownersApart hs he

/-! ### While the vault keeps its tokens -/

/-- What the vault pays from: its order book is in order, only the primary asset is owed, and the
mint of that asset exists. -/
structure VaultState.PaysOut (s : VaultState) : Prop extends Ledgered s where
  claims : s.PrimaryClaims
  assetMint : ∃ y, s.token.mints s.vault.assetMint = some y

theorem execManaged_lasting (ht : Custodial t) {b : ManagedAction} (hb : b.Unmanaged)
    {t' : ManagedState} (h : execManaged verify t b = .ok t') :
    Lasting t.core.token t'.core.token := by
  cases b with
  | core b =>
    simp only [execManaged, bind_eq_ok, pure_eq_ok] at h
    obtain ⟨c, hc, rfl⟩ := h
    exact (exec_spared ht.ledgered.wellFormed hc).lasting
  | venue i => exact .of_eq (execVenue_moved ht h).mints
  | policy i => exact .of_eq (congrArg (·.token.mints) (execPolicy_core h))
  | manageVault => exact hb.elim

/-- The mint of the primary asset exists. -/
def VaultState.HasAsset (s : VaultState) : Prop := ∃ y, s.token.mints s.vault.assetMint = some y

theorem Created.hasAsset (h : Created s) : s.HasAsset := by
  obtain ⟨w, ctx, args, h⟩ := h
  obtain ⟨_, token₁, token₂, token, hacc, rfl⟩ := createVault_iff.1 h
  obtain ⟨y, hy, -⟩ := hacc.assetMint
  obtain ⟨-, rfl⟩ := initializeAccount_ok hacc.reserve
  obtain ⟨-, rfl⟩ := initializeAccount_ok hacc.pendingVault
  obtain ⟨y', hy', -⟩ := setMintAuthority_lasting hacc.authority ctx.assetMint y hy
  exact ⟨y', hy'⟩

/-- **In a run without managed calls the vault stays able to pay.** -/
theorem ManagedRun.paysOut {t₀ : ManagedState} {tr : List (Transition ManagedState ManagedAction)}
    (hrun : ManagedRun verify t₀ tr t) (h₀ : t₀.Created) (hu : ∀ x ∈ tr, x.act.Unmanaged) :
    t.core.PaysOut := by
  have hinv := hrun.invariant_of_forall (Q := fun x => x.act.Unmanaged)
    (I := fun t => t.InOrder ∧ t.FailsClosed ∧ t.core.HasAsset)
    (fun t b t' hI hb he => by
      obtain ⟨hs, hc, y, hy⟩ := hI
      refine ⟨hs.execManaged hb he, hc.execManaged hs hb he, ?_⟩
      obtain ⟨y', hy', -⟩ := execManaged_lasting hs.toCustodial hb he _ y hy
      rw [VaultState.HasAsset, execManaged_assetMint hs hb he]
      exact ⟨y', hy'⟩) hu ⟨h₀.inOrder, h₀.failsClosed, h₀.core.hasAsset⟩
  obtain ⟨hs, hc, hasset⟩ := hinv
  exact ⟨hs.ledgered, hc.claims, hasset⟩

/-! ### Collecting one request -/

/-- The token program of a mint. -/
def VaultState.programOf (s : VaultState) (m : Pubkey) : TokenProgram :=
  ((s.token.mints m).map Mint.program).getD .token

/-- The payment of what the request `r` is owed into the account `a`. -/
def Request.owed (r : Request) (s : VaultState) (a : Pubkey) : Payout Pubkey :=
  match r.requestType with
  | .deposit => .mint (s.programOf r.shareMintAddress) r.shareMintAddress a r.amount
  | .redeem => .transfer (s.programOf r.assetMintAddress) s.vault.pendingVault r.assetMintAddress a
      r.amount

/-- The claim of the request `r` at `k` by `user` into the account `a`. -/
def Request.collection (r : Request) (s : VaultState) (user k a : Pubkey) : Claim where
  user := user
  owner := r.owner
  assetMint := r.assetMintAddress
  shareMint := r.shareMintAddress
  vaultAsset := none
  request := k
  pendingVault := if r.requestType = .redeem then some s.vault.pendingVault else none
  userShareAccount := if r.requestType = .deposit then some a else none
  userAssetAccount := if r.requestType = .redeem then some a else none
  assetTokenProgram := s.programOf r.assetMintAddress
  shareTokenProgram :=
    if r.requestType = .deposit then some (s.programOf r.shareMintAddress) else none

theorem Request.owed_dst (r : Request) (s : VaultState) (a : Pubkey) : (r.owed s a).dst = a := by
  unfold owed
  cases r.requestType <;> rfl

variable {user : Pubkey}

/-- Whoever may claim passes the checks with the accounts that exist. -/
theorem VaultState.PaysOut.accepted (hs : s.PaysOut) (hinit : s.vault.initialized = true)
    (hpaused : s.vault.paused = false) (hr : s.requests.lookup k = some r)
    (hclaimable : r.requestState = .claimable) (hsigner : user ≠ s.key)
    (hauth : user = r.owner ∨ r.operator = some user) (ha : s.token.Holds a r.owedMint r.owner) :
    (r.collection s user k a).Accepted s s.trancheInfo r (r.owed s a) := by
  have hv := hs.wellFormed.terms
  have hok := hs.wellFormed.requests _ _ hr
  have hprimary := hs.claims k r hr hclaimable
  obtain ⟨y, hy, -⟩ := hv.mintable _ hok.shareMint
  refine ⟨hsigner, ?_, ⟨y, hy⟩, hr, hok.vault, rfl, ⟨hinit, hpaused⟩, hauth, hclaimable, rfl, rfl,
    exists_validateRequestShareMint hv.coherent hok.shareMint, ?_, ?_, fun ht v hv' => ?_⟩
  · show ∃ x, s.token.mints r.assetMintAddress = some x
    rw [hprimary]
    exact hs.assetMint
  · cases ht : r.requestType <;> simp [Claim.payout, Request.collection, Request.owed, ht]
  · rw [Request.owed_dst]
    exact ha
  · obtain rfl : s.vault.pendingVault = v := by simpa [Request.collection, ht] using hv'
    show s.token.Holds s.vault.pendingVault r.assetMintAddress s.key ∧
      checkPendingVault s r.assetMintAddress none s.vault.pendingVault = .ok ()
    rw [hprimary]
    exact ⟨hv.pendingVault.holds, by
      simp [checkPendingVault, Vault.isPrimaryAsset, ensure, require]⟩

/-- The mint of the shares a deposit is owed has room for them, and is public. -/
def VaultState.HasRoom (s : VaultState) (r : Request) (n : ℕ) : Prop :=
  r.requestType = .deposit → ∀ y, s.token.mints r.shareMintAddress = some y →
    y.confidentialMintBurn = false ∧ y.supply + n < 2 ^ 64

/-- Where all claimable deposits of a mint have room, each of them has. -/
theorem VaultState.HasRoom.single (h : s.HasRoom r (s.claimableDeposits r.shareMintAddress))
    (hr : s.requests.lookup k = some r) (hclaimable : r.requestState = .claimable) :
    s.HasRoom r r.amount := by
  intro ht y hy
  obtain ⟨hconf, hlt⟩ := h ht y hy
  have hle : r.amount ≤ s.claimableDeposits r.shareMintAddress := by
    have := le_total (w := fun q : Request => if q.requestType = .deposit ∧
      q.requestState = .claimable ∧ q.shareMintAddress = r.shareMintAddress then q.amount else 0) hr
    rwa [if_pos ⟨ht, hclaimable, rfl⟩] at this
  exact ⟨hconf, by omega⟩

theorem VaultState.programOf_of_some {y : Mint Pubkey} (h : s.token.mints m = some y) :
    s.programOf m = y.program := by
  rw [programOf, h]
  rfl

/-- What is owed can be paid as far as accounts and authorities go. -/
theorem VaultState.PaysOut.sound (hs : s.PaysOut) (hr : s.requests.lookup k = some r)
    (hclaimable : r.requestState = .claimable) (ha : s.token.Holds a r.owedMint r.owner) {n : ℕ}
    (hroom : s.HasRoom r n) : (r.owed s a).Sound s.token s.key := by
  have hv := hs.wellFormed.terms
  have hok := hs.wellFormed.requests _ _ hr
  unfold Request.owed
  unfold Request.owedMint at ha
  cases ht : r.requestType with
  | deposit =>
    simp only [ht] at ha
    obtain ⟨y, hy, hauth⟩ := hv.mintable _ hok.shareMint
    exact ⟨⟨y, hy, (VaultState.programOf_of_some hy).symm, (hroom ht y hy).1, hauth⟩, _, ha⟩
  | redeem =>
    simp only [ht] at ha
    obtain ⟨x, hx⟩ := hs.assetMint
    have hprimary := hs.claims k r hr hclaimable
    rw [hprimary] at ha ⊢
    exact ⟨⟨x, hx, (VaultState.programOf_of_some hx).symm⟩, hv.pendingVault.holds, _, ha⟩

/-- The escrow holds all that is claimable. -/
theorem Ledgered.claimableRedeems_le (hs : Ledgered s) :
    s.claimableRedeems s.vault.assetMint ≤ s.token.balance s.vault.pendingVault := by
  have hescrow := (hs.escrowedAt s.vault.assetMint).escrow
  have hpending : s.terms.pendingVaultOf s.vault.assetMint = some s.vault.pendingVault := by
    simp [Terms.pendingVaultOf, VaultState.terms]
  rw [VaultState.escrow_of_some hpending, VaultState.book_claimableRedeems] at hescrow
  omega

/-- The request at `k` was collected into the account `a`. -/
structure Request.Collected (r : Request) (s s' : VaultState) (k a : Pubkey) : Prop where
  requests : s'.requests = s.requests.erase k
  paid : Paid s.token s'.token (r.owed s a)

/-- A claim by `user` collects the request at `k` into the account `a`. -/
def VaultState.CanCollect (s : VaultState) (user k : Pubkey) (r : Request) (a : Pubkey) : Prop :=
  ∃ ctx remaining s', ctx.user = user ∧ ctx.request = k ∧ ctx.payout r = some (r.owed s a) ∧
    claim s ctx remaining = .ok s' ∧ r.Collected s s' k a

/-- What is owed can be collected exactly when mints and accounts let it through and there is
room for it. -/
theorem VaultState.PaysOut.canCollect_iff (hs : s.PaysOut) (hinit : s.vault.initialized = true)
    (hpaused : s.vault.paused = false) (hr : s.requests.lookup k = some r)
    (hclaimable : r.requestState = .claimable) (hsigner : user ≠ s.key)
    (hauth : user = r.owner ∨ r.operator = some user) (ha : s.token.Holds a r.owedMint r.owner) :
    s.CanCollect user k r a ↔ (r.owed s a).Open s.token ∧ s.HasRoom r r.amount := by
  constructor
  · rintro ⟨ctx, remaining, s', rfl, rfl, hpayout, hclaim, -⟩
    obtain ⟨r', p, token, haccepted, hpay, -⟩ := claim_iff.1 hclaim
    obtain rfl := Option.some.inj (hr.symm.trans haccepted.found)
    obtain rfl := Option.some.inj (hpayout.symm.trans haccepted.payout)
    obtain ⟨hsound, hopen, hfunded⟩ := sound_of_pay hpay
    -- a claimed deposit is minted, and so the supply had room for it
    refine ⟨hopen, fun ht y hy => ?_⟩
    simp only [Request.owed, ht] at hsound hfunded
    obtain ⟨⟨y', hy', -, hconf, -⟩, -⟩ := hsound
    obtain rfl := Option.some.inj (hy.symm.trans hy')
    have hlt : s.token.supply r.shareMintAddress + r.amount < 2 ^ 64 := hfunded
    rw [supply_of_some hy] at hlt
    exact ⟨hconf, hlt⟩
  · rintro ⟨hopen, hroom⟩
    have haccepted := hs.accepted hinit hpaused hr hclaimable hsigner hauth ha
    -- the ledger covers what is owed; only a deposit needs room besides
    have hfunded : (r.owed s a).Funded s.token := by
      unfold Request.owed
      cases ht : r.requestType with
      | deposit =>
        obtain ⟨y, hy, -⟩ := hs.wellFormed.terms.mintable _
          (hs.wellFormed.requests _ _ hr).shareMint
        show s.token.supply r.shareMintAddress + r.amount < 2 ^ 64
        rw [supply_of_some hy]
        exact (hroom ht y hy).2
      | redeem =>
        have hprimary := hs.claims k r hr hclaimable
        exact hs.owed hr hclaimable ht (by simp [Terms.pendingVaultOf, VaultState.terms, hprimary])
    obtain ⟨token, hpay⟩ := exists_pay (hs.sound hr hclaimable ha hroom) hopen hfunded
    have ho := haccepted.outward (hs.wellFormed.requests _ _ hr).owner
    exact ⟨_, _, _, rfl, rfl, haccepted.payout,
      claim_iff.2 ⟨r, _, token, haccepted, hpay, rfl⟩, rfl, pay_ok ho hpay⟩

/-- The requests that are owed something. -/
def VaultState.owed (s : VaultState) : List (Pubkey × Request) :=
  (records s.requests).filter fun x => decide (x.2.requestState = .claimable)

theorem VaultState.mem_owed {x : Pubkey × Request} :
    x ∈ s.owed ↔ s.requests.lookup x.1 = some x.2 ∧ x.2.requestState = .claimable := by
  rw [owed, List.mem_filter, mem_records, decide_eq_true_eq]

theorem VaultState.nodup_owed (s : VaultState) : (s.owed.map Prod.fst).Nodup :=
  (nodup_records s.requests).sublist (List.filter_sublist.map _)

/-! ### A vault that owes two requests -/

/-- A run of the core makes no managed call. -/
theorem unmanaged_of_core {tr : List (Transition ManagedState ManagedAction)} {l : List Action}
    (h : tr.map Transition.act = l.map .core) : ∀ x ∈ tr, x.act.Unmanaged := by
  rintro x hx
  have hmem : x.act ∈ l.map ManagedAction.core := by
    rw [← h]
    exact List.mem_map_of_mem hx
  obtain ⟨b, -, hb⟩ := List.mem_map.1 hmem
  rw [← hb]
  trivial

namespace Scenario

/-- A deposit and a redemption are approved and not yet claimed. -/
def twoOwed : List Action :=
  [anyNav, start, post 10, deposit 100 senior 100, approve 100 senior .deposit 100 1,
    collect 100 senior, deposit 101 senior 50, approve 101 senior .deposit 50 1,
    redeem 102 senior 5, approve 102 senior .redeem 5 1]

/-- Shares go to the share account of the user, and assets to its asset account. -/
def receive (k : Pubkey) : Pubkey := if k = address 101 then userSenior else userAsset

/-- Two requests are owed, the owners hold accounts, nothing is paused or frozen, and the
supplies have room. -/
def owesTwo (s : VaultState) : Bool :=
  s.vault.initialized && !s.vault.paused &&
    decide (s.owed.map Prod.fst = [address 102, address 101])
    && s.owed.all fun x =>
      (s.token.accounts (receive x.1)).any (fun y => y.mint = x.2.owedMint && y.owner = x.2.owner)
      && decide ((x.2.owed s (receive x.1)).Open s.token)
      && (s.token.mints x.2.shareMintAddress).all fun y => y.confidentialMintBurn = false &&
        y.supply + s.claimableDeposits x.2.shareMintAddress < 2 ^ 64

/-- The state the two requests are left in. -/
theorem exists_owesTwo : ∃ t₀ tr t, ManagedState.Created t₀ ∧ ManagedRun noCalls t₀ tr t ∧
    (∀ x ∈ tr, x.act.Unmanaged) ∧ t.core.vault.initialized = true ∧
    t.core.vault.paused = false ∧ t.core.owed.map Prod.fst = [address 102, address 101] ∧
    (∀ x ∈ t.core.owed, t.core.token.Holds (receive x.1) x.2.owedMint x.2.owner) ∧
    (∀ x ∈ t.core.owed, (x.2.owed t.core (receive x.1)).Open t.core.token) ∧
    ∀ x ∈ t.core.owed, t.core.HasRoom x.2 (t.core.claimableDeposits x.2.shareMintAddress) := by
  obtain ⟨t₀, tr, t, h₀, hrun, hacts, hp⟩ := exists_managed_run (twoOwed.map .core)
    (fun _ t => owesTwo t.core) (by decide +kernel)
  simp only [owesTwo, Bool.and_eq_true, Bool.not_eq_true', decide_eq_true_eq, List.all_eq_true,
    Option.any_eq_true, Option.all_eq_true] at hp
  obtain ⟨⟨⟨hinit, hpaused⟩, hkeys⟩, hall⟩ := hp
  refine ⟨t₀, tr, t, h₀, hrun, unmanaged_of_core hacts, hinit, hpaused, hkeys, fun x hx => ?_,
    fun x hx => (hall x hx).1.2, fun x hx _ y hy => ?_⟩
  · obtain ⟨⟨⟨y, hy, hholds⟩, -⟩, -⟩ := hall x hx
    exact ⟨y, hy, hholds⟩
  · exact (hall x hx).2 y hy

end Scenario

/-! ### Orders of claims -/

/-- **Claims are independent.**  From every reachable state, a batch of claims that succeeds in one
order succeeds in every order, and ends in the same state. -/
theorem claims_in_any_order (ht : t.IsReachable verify) {as bs : List Action}
    (hclaims : ∀ b ∈ as, b.IsClaim) (hperm : as.Perm bs) :
    Plays exec t.core as s ↔ Plays exec t.core bs s :=
  ⟨plays_perm_of_claims ht.ownersApart hclaims hperm,
    plays_perm_of_claims ht.ownersApart (fun b hb => hclaims b (hperm.mem_iff.2 hb)) hperm.symm⟩

open Scenario in
/-- **Non-vacuity.** Two claims of a reachable state, in both orders. -/
theorem claims_in_any_order_of_two :
    ∃ t s, ManagedState.IsReachable noCalls t ∧
      Plays exec t.core [collect 101 senior, collect 102 senior] s ∧
      Plays exec t.core [collect 102 senior, collect 101 senior] s := by
  obtain ⟨t₀, tr, t, h₀, hrun, hacts, hp⟩ := exists_managed_run (twoOwed.map .core)
    (fun _ t => plays exec t.core [collect 101 senior, collect 102 senior] fun _ _ => true)
    (by decide +kernel)
  obtain ⟨tr', s, hrun', hacts', -⟩ := exists_of_plays hp
  have hplays := hrun'.plays
  rw [hacts'] at hplays
  have ht : t.IsReachable noCalls := ⟨t₀, tr, h₀, hrun⟩
  refine ⟨t, s, ht, hplays, (claims_in_any_order ht (fun b hb => ?_) (.swap _ _ _)).1 hplays⟩
  rcases List.mem_pair.1 hb with rfl | rfl
  · exact ⟨_, _, rfl⟩
  · exact ⟨_, _, rfl⟩

/-! ### One request -/

/-- A batch of claims whose payments are made one after the other. -/
theorem plays_claims {α : Type} (ctx : α → Claim) (q : α → Request) (p : α → Payout Pubkey)
    {l : List α} (hs : s.OwnersApart)
    (haccepted : ∀ x ∈ l, (ctx x).Accepted s remaining (q x) (p x))
    (hdistinct : (l.map fun x => (ctx x).request).Nodup)
    (hpay : s.token.payAll s.key (l.map p) = .ok token) :
    Plays exec s (l.map fun x => .request (.claim (ctx x)) remaining)
      (s.put token ((l.map fun x => (ctx x).request).foldl (fun q k => q.erase k) s.requests)) := by
  induction l generalizing s with
  | nil =>
    obtain rfl : s.token = token := Except.ok.inj hpay
    exact .nil
  | cons x l ih =>
    simp only [List.map_cons, Ledger.payAll, bind_eq_ok] at hpay
    obtain ⟨token₁, hfirst, hrest⟩ := hpay
    obtain ⟨hnew, hdistinct⟩ := List.nodup_cons.1 hdistinct
    have hx := haccepted x List.mem_cons_self
    have hshape := (pay_ok (hx.outward (hs _ _ hx.found)) hfirst).shape
    have hstep : exec s (.request (.claim (ctx x)) remaining) =
        .ok (s.put token₁ (s.requests.erase (ctx x).request)) :=
      claim_iff.2 ⟨q x, p x, token₁, hx, hfirst, rfl⟩
    refine .cons hstep (ih (claim_ownersApart hs hstep) (fun z hz => ?_) hdistinct hrest)
    -- the other claims are for other requests
    have hz' := haccepted z (List.mem_cons_of_mem _ hz)
    refine hz'.put hshape ?_
    have hne : (ctx z).request ≠ (ctx x).request := by
      intro he
      exact hnew (List.mem_map.2 ⟨z, hz, he⟩)
    rw [AList.lookup_erase_ne hne]
    exact hz'.found

theorem lookup_foldl_erase {ks : List Pubkey} {requests : Store Pubkey Request} :
    (ks.foldl (fun q k => q.erase k) requests).lookup k = some r ↔
      requests.lookup k = some r ∧ k ∉ ks := by
  induction ks generalizing requests with
  | nil => simp
  | cons k' ks ih =>
    rw [List.foldl_cons, ih, List.mem_cons, not_or, ← and_assoc]
    refine and_congr_left' ?_
    by_cases hk : k = k'
    · subst hk
      simp
    · simp [hk, AList.lookup_erase_ne hk]

/-- The claim of an owed request by its owner. -/
def VaultState.collect (s : VaultState) (into : Pubkey → Pubkey) (x : Pubkey × Request) : Action :=
  .request (.claim (x.2.collection s x.2.owner x.1 (into x.1))) s.trancheInfo

/-- What is owed, payment by payment. -/
def VaultState.payouts (s : VaultState) (into : Pubkey → Pubkey) : List (Payout Pubkey) :=
  s.owed.map fun x => x.2.owed s (into x.1)

/-- The shares created by all payments are those of the claimable deposits. -/
theorem VaultState.sum_minted (s : VaultState) (into : Pubkey → Pubkey) (m : Pubkey) :
    ((s.payouts into).map (Payout.minted m)).sum = s.claimableDeposits m := by
  have hminted : ∀ x : Pubkey × Request, (x.2.owed s (into x.1)).minted m =
      if x.2.requestType = .deposit ∧ x.2.shareMintAddress = m then x.2.amount else 0 := by
    intro x
    unfold Request.owed
    cases ht : x.2.requestType <;> simp [Payout.minted]
  rw [payouts, List.map_map]
  refine Eq.trans ?_ (sum_filter_records (fun r : Request =>
    if r.requestType = .deposit ∧ r.shareMintAddress = m then r.amount else 0)
    (fun r => decide (r.requestState = .claimable)) s.requests |>.trans ?_)
  · exact congrArg List.sum (List.map_congr_left fun x _ => hminted x)
  · show _ = total (fun r : Request => if r.requestType = .deposit ∧
      r.requestState = .claimable ∧ r.shareMintAddress = m then r.amount else 0) s.requests
    refine total_congr fun k r _ => ?_
    by_cases hc : r.requestState = .claimable <;> simp [hc]

/-- What all payments take out of the escrow are the claimable redemptions. -/
theorem VaultState.PaysOut.sum_out (hs : s.PaysOut) (into : Pubkey → Pubkey) :
    ((s.payouts into).map (Payout.out s.vault.pendingVault)).sum =
      s.claimableRedeems s.vault.assetMint := by
  have hout : ∀ x : Pubkey × Request, (x.2.owed s (into x.1)).out s.vault.pendingVault =
      if x.2.requestType = .redeem then x.2.amount else 0 := by
    intro x
    unfold Request.owed
    cases ht : x.2.requestType <;> simp [Payout.out]
  rw [payouts, List.map_map]
  refine Eq.trans ?_ (sum_filter_records (fun r : Request =>
    if r.requestType = .redeem then r.amount else 0)
    (fun r => decide (r.requestState = .claimable)) s.requests |>.trans ?_)
  · exact congrArg List.sum (List.map_congr_left fun x _ => hout x)
  · show _ = total (fun r : Request => if r.requestType = .redeem ∧
      r.requestState = .claimable ∧ r.assetMintAddress = s.vault.assetMint then r.amount else 0)
      s.requests
    refine total_congr fun k r hr => ?_
    by_cases hc : r.requestState = .claimable
    · simp [hc, hs.claims k r hr hc]
    · simp [hc]

/-- There is enough for everything that is owed. -/
theorem VaultState.PaysOut.funded (hs : s.PaysOut) (into : Pubkey → Pubkey)
    (hroom : ∀ x ∈ s.owed, s.HasRoom x.2 (s.claimableDeposits x.2.shareMintAddress))
    {x : Pubkey × Request} (hx : x ∈ s.owed) :
    (x.2.owed s (into x.1)).FundedAmong s.token (s.payouts into) := by
  obtain ⟨hr, hclaimable⟩ := VaultState.mem_owed.1 hx
  have hroom := hroom x hx
  unfold Request.owed
  cases ht : x.2.requestType with
  | deposit =>
    obtain ⟨y, hy, -⟩ := hs.wellFormed.terms.mintable _ (hs.wellFormed.requests _ _ hr).shareMint
    show s.token.supply x.2.shareMintAddress + _ < 2 ^ 64
    rw [VaultState.sum_minted, supply_of_some hy]
    exact (hroom ht y hy).2
  | redeem =>
    show ((s.payouts into).map (Payout.out s.vault.pendingVault)).sum ≤ _
    rw [hs.sum_out]
    exact hs.claimableRedeems_le

end AsyncVault
