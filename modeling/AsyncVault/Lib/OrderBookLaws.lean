/-
AsyncVault/Lib/OrderBookLaws.lean

What the counters of an order book mean.

Each law is an invariant of `Book` with one lemma about a single `Step`, by cases
on what happened:

* `Book.EscrowedAt`: the reserved amount of an asset is the sum of its pending
  deposits, and the escrow covers it together with the redemptions owed;
* `Step.openCount`: the open count counts the pending orders;
* `Step.committed_eq`, `Step.committed_approved`: the committed shares change at
  approvals, instant settlements, fee mints and burns only;
* `Book.CoversShares` and `Book.CountsShares`: the cached supply of a tranche
  bounds, or equals, its committed shares;
* `Book.Solvent`: at one price, the pool's assets cover all committed shares;
* `Book.FloorHolds`: junior keeps its least part of the value.
-/
import AsyncVault.Lib.OrderBook
import Mathlib.Tactic.Linarith

namespace OrderBook

open Function KeyedStore FixedPoint

variable {ι : Type} [DecidableEq ι]
variable {B B' : Book ι} {e : Event ι} {m k : ι} {o : Order ι} {orders orders' : Store ι (Order ι)}

/-! ### Tallies -/

/-- Moving at one asset, seen at any asset. -/
theorem Moved.le {esc esc' : ι → ℕ} {inn out : ℕ} (h : Moved esc esc' k inn out) (m : ι) :
    esc m + (if k = m then inn else 0) ≤ esc' m + (if k = m then out else 0) := by
  by_cases hk : k = m
  · subst hk
    simpa using h.moved
  · simpa [hk] using h.other m (Ne.symm hk)

/-- A refund takes the order off every tally that ignores canceled orders. -/
theorem Withdrawn.total {w : Order ι → ℕ} (h : Withdrawn orders k o e orders')
    (found : orders.lookup k = some o) (hw : w { o with stage := .canceled } = 0) :
    KeyedStore.total w orders' + w o = KeyedStore.total w orders := by
  cases h with
  | refunded => exact total_erase_of_some found
  | canceled => rw [total_insert_of_some found, hw, Nat.add_zero]

/-! ### Escrow -/

/-- The escrow account of an asset: what is reserved there is what the pending
deposits took, and it is covered together with what approved redemptions are
owed. -/
structure Book.EscrowedAt (B : Book ι) (m : ι) : Prop where
  reserved : B.reserved m = B.pendingDeposits m
  escrow : B.reserved m + B.claimableRedeems m ≤ B.escrow m

/-- What an escrow has over what it owes stays in it. -/
theorem Step.surplus {n : ℕ} (h : Step B e B') (hr : B.reserved m = B.pendingDeposits m)
    (he : B.reserved m + B.claimableRedeems m + n ≤ B.escrow m) :
    B'.reserved m = B'.pendingDeposits m ∧
      B'.reserved m + B'.claimableRedeems m + n ≤ B'.escrow m := by
  unfold Book.pendingDeposits at hr
  unfold Book.claimableRedeems at he
  -- each step moves the two totals by what its order weighs before and after, and the escrow by
  -- what is paid
  cases h with
  | @openDeposit k o esc free side stage paid =>
    have hd := total_insert_of_none (w := Order.inAsset .deposit .pending m) (v := o) free
    have hc := total_insert_of_none (w := Order.inAsset .redeem .claimable m) (v := o) free
    have hm := paid.le m
    simp only [Order.inAsset, side, stage] at hd hc
    constructor <;> simp only [Book.pendingDeposits, Book.claimableRedeems, update_apply] <;> grind
  | @openRedeem k o esc free side stage live kept =>
    have hd := total_insert_of_none (w := Order.inAsset .deposit .pending m) (v := o) free
    have hc := total_insert_of_none (w := Order.inAsset .redeem .claimable m) (v := o) free
    have hm := kept m
    simp only [Order.inAsset, side, stage] at hd hc
    constructor <;> simp only [Book.pendingDeposits, Book.claimableRedeems] <;> grind
  | @approveDeposit k o esc net shares found side stage plain bought paid guarded =>
    have hd := total_insert_of_some (w := Order.inAsset .deposit .pending m)
      (u := { o with amount := shares, stage := .claimable }) found
    have hc := total_insert_of_some (w := Order.inAsset .redeem .claimable m)
      (u := { o with amount := shares, stage := .claimable }) found
    have hm := paid.le m
    simp only [Order.inAsset, side, stage] at hd hc
    constructor <;> simp only [Book.pendingDeposits, Book.claimableRedeems, Book.approveDeposit,
      update_apply] <;> grind
  | @approveRedeem k o esc gross net found side stage plain valued covered paid guarded =>
    have hd := total_insert_of_some (w := Order.inAsset .deposit .pending m)
      (u := { o with amount := net, stage := .claimable }) found
    have hc := total_insert_of_some (w := Order.inAsset .redeem .claimable m)
      (u := { o with amount := net, stage := .claimable }) found
    have hm := paid.le m
    simp only [Order.inAsset, side, stage] at hd hc
    constructor <;> simp only [Book.pendingDeposits, Book.claimableRedeems, Book.approveRedeem] <;>
      grind
  | @claimDeposit k o esc found side stage kept =>
    have hd := total_erase_of_some (w := Order.inAsset .deposit .pending m) found
    have hc := total_erase_of_some (w := Order.inAsset .redeem .claimable m) found
    have hm := kept m
    simp only [Order.inAsset, side, stage] at hd hc
    constructor <;> simp only [Book.pendingDeposits, Book.claimableRedeems] <;> grind
  | @claimRedeem k o esc found side stage paid =>
    have hd := total_erase_of_some (w := Order.inAsset .deposit .pending m) found
    have hc := total_erase_of_some (w := Order.inAsset .redeem .claimable m) found
    have hm := paid.le m
    simp only [Order.inAsset, side, stage] at hd hc
    constructor <;> simp only [Book.pendingDeposits, Book.claimableRedeems] <;> grind
  | @refundDeposit k o esc e orders found side stage paid withdrawn =>
    have hd := withdrawn.total (w := Order.inAsset .deposit .pending m) found
      (by simp [Order.inAsset])
    have hc := withdrawn.total (w := Order.inAsset .redeem .claimable m) found
      (by simp [Order.inAsset])
    have hm := paid.le m
    simp only [Order.inAsset, side, stage] at hd hc
    constructor <;> simp only [Book.pendingDeposits, Book.claimableRedeems, update_apply] <;> grind
  | @refundRedeem k o esc e orders found side stage kept withdrawn =>
    have hd := withdrawn.total (w := Order.inAsset .deposit .pending m) found
      (by simp [Order.inAsset])
    have hc := withdrawn.total (w := Order.inAsset .redeem .claimable m) found
      (by simp [Order.inAsset])
    have hm := kept m
    simp only [Order.inAsset, side, stage] at hd hc
    constructor <;> simp only [Book.pendingDeposits, Book.claimableRedeems] <;> grind
  | @skip k o found stage =>
    have hd := total_erase_of_some (w := Order.inAsset .deposit .pending m) found
    have hc := total_erase_of_some (w := Order.inAsset .redeem .claimable m) found
    simp only [Order.inAsset, stage] at hd hc
    constructor <;> simp only [Book.pendingDeposits, Book.claimableRedeems] <;> grind
  | @touch k o found =>
    have hd := total_insert_of_some (w := Order.inAsset .deposit .pending m) (u := o) found
    have hc := total_insert_of_some (w := Order.inAsset .redeem .claimable m) (u := o) found
    constructor <;> simp only [Book.pendingDeposits, Book.claimableRedeems] <;> grind
  | instantDeposit _ _ kept | instantRedeem _ _ _ _ kept | post _ kept | burn _ kept
  | idle _ kept => exact ⟨hr, he.trans (kept m)⟩
  | waterfall | split => exact ⟨hr, he⟩

theorem Step.escrowedAt (h : Step B e B') (hB : B.EscrowedAt m) : B'.EscrowedAt m := by
  obtain ⟨hr, he⟩ := h.surplus (n := 0) hB.reserved hB.escrow
  exact ⟨hr, he⟩

/-- The open count counts the pending orders. -/
theorem Step.openCount (h : Step B e B') (hB : B.openCount = B.openOrders) :
    B'.openCount = B'.openOrders := by
  unfold Book.openOrders at hB ⊢
  -- an order is open while it is pending, and the counter follows
  cases h with
  | openDeposit free _ stage _ | openRedeem free _ stage _ _ =>
    rw [total_insert_of_none free, hB, Order.isOpen, if_pos stage]
  | @approveDeposit k o _ _ shares found _ stage _ _ _ _ =>
    have ho := total_insert_of_some (w := Order.isOpen)
      (u := { o with amount := shares, stage := .claimable }) found
    simp only [Order.isOpen, stage, if_true, reduceCtorEq, if_false] at ho
    simp only [Book.approveDeposit]
    omega
  | @approveRedeem k o _ _ net found _ stage _ _ _ _ _ =>
    have ho := total_insert_of_some (w := Order.isOpen)
      (u := { o with amount := net, stage := .claimable }) found
    simp only [Order.isOpen, stage, if_true, reduceCtorEq, if_false] at ho
    simp only [Book.approveRedeem]
    omega
  | claimDeposit found _ stage _ | claimRedeem found _ stage _ | skip found stage =>
    have ho := total_erase_of_some (w := Order.isOpen) found
    simp only [Order.isOpen, stage, reduceCtorEq, if_false] at ho
    exact hB.trans ho.symm
  | refundDeposit found _ stage _ withdrawn | refundRedeem found _ stage _ withdrawn =>
    have ho := withdrawn.total (w := Order.isOpen) found (by simp [Order.isOpen])
    simp only [Order.isOpen, stage, if_true] at ho
    simp only
    omega
  | @touch k o found =>
    have ho := total_insert_of_some (w := Order.isOpen) (u := o) found
    simp only
    omega
  | instantDeposit | instantRedeem | post | burn | waterfall | split | idle => exact hB

/-- A pending deposit is reserved in full. -/
theorem Book.EscrowedAt.le_reserved (hB : B.EscrowedAt o.asset)
    (found : B.orders.lookup k = some o) (side : o.side = .deposit) (stage : o.stage = .pending) :
    o.amount ≤ B.reserved o.asset := by
  have h := le_total (w := Order.inAsset .deposit .pending o.asset) found
  rw [hB.reserved]
  simpa [Book.pendingDeposits, Order.inAsset, side, stage] using h

/-- What an approved redemption is owed is in the escrow. -/
theorem Book.EscrowedAt.le_escrow (hB : B.EscrowedAt o.asset)
    (found : B.orders.lookup k = some o) (side : o.side = .redeem) (stage : o.stage = .claimable) :
    o.amount ≤ B.escrow o.asset := by
  have h := le_total (w := Order.inAsset .redeem .claimable o.asset) found
  have he := hB.escrow
  simp only [Order.inAsset, side, stage, and_self, if_true] at h
  unfold Book.claimableRedeems at he
  omega

/-- Where an order is pending the open count is positive. -/
theorem openCount_pos (hB : B.openCount = B.openOrders) (found : B.orders.lookup k = some o)
    (stage : o.stage = .pending) : 0 < B.openCount := by
  have h := le_total (w := Order.isOpen) found
  rw [hB]
  unfold Book.openOrders
  simp only [Order.isOpen, stage, if_true] at h
  omega

/-! ### Committed shares -/

/-- Events that move shares between the forms they are counted in, at most. -/
def Event.Neutral : Event ι → Prop
  | .approved _ | .instantDeposit | .instantRedeem | .posted | .burned _ => False
  | _ => True

/-- A pending redemption is part of the committed shares. -/
theorem Book.supply_add_le_committed (found : B.orders.lookup k = some o)
    (side : o.side = .redeem) (stage : o.stage = .pending) :
    B.supply o.share + o.amount ≤ B.committed o.share := by
  have h := le_total (w := Order.inShare .redeem .pending o.share) found
  simp only [Order.inShare, side, stage, and_self, if_true] at h
  unfold Book.committed Book.pendingRedeems
  omega

/-- **Conservation of shares**: opening, claiming, refunding and skipping leave the
committed shares as they are. -/
theorem Step.committed_eq (h : Step B e B') (he : e.Neutral) (m : ι) :
    B'.committed m = B.committed m := by
  unfold Book.committed Book.claimableDeposits Book.pendingRedeems
  -- shares change hands between the supply and the orders, and the sum stays
  cases h with
  | @openDeposit k o esc free side stage paid =>
    have hd := total_insert_of_none (w := Order.inShare .deposit .claimable m) (v := o) free
    have hr := total_insert_of_none (w := Order.inShare .redeem .pending m) (v := o) free
    simp only [Order.inShare, side, stage] at hd hr
    grind
  | @openRedeem k o esc free side stage live kept =>
    have hd := total_insert_of_none (w := Order.inShare .deposit .claimable m) (v := o) free
    have hr := total_insert_of_none (w := Order.inShare .redeem .pending m) (v := o) free
    simp only [Order.inShare, side, stage] at hd hr
    simp only [update_apply]
    grind
  | @claimDeposit k o esc found side stage kept =>
    have hd := total_erase_of_some (w := Order.inShare .deposit .claimable m) found
    have hr := total_erase_of_some (w := Order.inShare .redeem .pending m) found
    simp only [Order.inShare, side, stage] at hd hr
    simp only [update_apply]
    grind
  | @claimRedeem k o esc found side stage paid =>
    have hd := total_erase_of_some (w := Order.inShare .deposit .claimable m) found
    have hr := total_erase_of_some (w := Order.inShare .redeem .pending m) found
    simp only [Order.inShare, side, stage] at hd hr
    grind
  | @refundDeposit k o esc e orders found side stage paid withdrawn =>
    have hd := withdrawn.total (w := Order.inShare .deposit .claimable m) found
      (by simp [Order.inShare])
    have hr := withdrawn.total (w := Order.inShare .redeem .pending m) found
      (by simp [Order.inShare])
    simp only [Order.inShare, side, stage] at hd hr
    grind
  | @refundRedeem k o esc e orders found side stage kept withdrawn =>
    have hd := withdrawn.total (w := Order.inShare .deposit .claimable m) found
      (by simp [Order.inShare])
    have hr := withdrawn.total (w := Order.inShare .redeem .pending m) found
      (by simp [Order.inShare])
    simp only [Order.inShare, side, stage] at hd hr
    simp only [update_apply]
    grind
  | @skip k o found stage =>
    have hd := total_erase_of_some (w := Order.inShare .deposit .claimable m) found
    have hr := total_erase_of_some (w := Order.inShare .redeem .pending m) found
    simp only [Order.inShare, stage] at hd hr
    grind
  | @touch k o found =>
    have hd := total_insert_of_some (w := Order.inShare .deposit .claimable m) (u := o) found
    have hr := total_insert_of_some (w := Order.inShare .redeem .pending m) (u := o) found
    grind
  -- the other steps are not neutral
  | approveDeposit | approveRedeem | instantDeposit | instantRedeem | post | waterfall | burn =>
    exact absurd he id
  | split | idle => rfl

/-- The committed shares after an approved deposit: those it bought are added. -/
theorem Book.committed_approveDeposit {net shares : ℕ} {esc : ι → ℕ}
    (found : B.orders.lookup k = some o) (side : o.side = .deposit) (stage : o.stage = .pending)
    (m : ι) :
    (B.approveDeposit k o net shares esc).committed m =
      B.committed m + if o.share = m then shares else 0 := by
  unfold Book.committed Book.claimableDeposits Book.pendingRedeems Book.approveDeposit
  have hd := total_insert_of_some (w := Order.inShare .deposit .claimable m)
    (u := { o with amount := shares, stage := .claimable }) found
  have hr := total_insert_of_some (w := Order.inShare .redeem .pending m)
    (u := { o with amount := shares, stage := .claimable }) found
  simp only [Order.inShare, side, stage] at hd hr
  grind

/-- The committed shares after an approved redemption: those given up are gone. -/
theorem Book.committed_approveRedeem {gross net : ℕ} {esc : ι → ℕ}
    (found : B.orders.lookup k = some o) (side : o.side = .redeem) (stage : o.stage = .pending)
    (m : ι) :
    (B.approveRedeem k o gross net esc).committed m + (if o.share = m then o.amount else 0) =
      B.committed m := by
  unfold Book.committed Book.claimableDeposits Book.pendingRedeems Book.approveRedeem
  have hd := total_insert_of_some (w := Order.inShare .deposit .claimable m)
    (u := { o with amount := net, stage := .claimable }) found
  have hr := total_insert_of_some (w := Order.inShare .redeem .pending m)
    (u := { o with amount := net, stage := .claimable }) found
  simp only [Order.inShare, side, stage] at hd hr
  grind

/-- An event that is neither an approval nor an instant settlement changes the
committed shares as it changes the live supply. -/
theorem committed_of_orders {C : Book ι} (ho : C.orders = B.orders) (m : ι) :
    C.committed m + B.supply m = B.committed m + C.supply m := by
  unfold Book.committed Book.claimableDeposits Book.pendingRedeems
  rw [ho]
  omega

/-- What an event may do to the committed shares of `m`: an approval adds what a
deposit bought or takes what a redemption gave up, the instant settlements and
the posting of a price move the pool's own share, and nothing else but a burn
changes anything. -/
def Book.ShareChange (B : Book ι) (e : Event ι) (B' : Book ι) (m : ι) : Prop :=
  match e with
  | .approved k => ∃ o o', B.orders.lookup k = some o ∧ B'.orders.lookup k = some o' ∧
      match o.side with
      | .deposit => B'.committed m = B.committed m + if o.share = m then o'.amount else 0
      | .redeem => B'.committed m + (if o.share = m then o.amount else 0) = B.committed m
  | .instantDeposit | .posted =>
      ∃ n, B'.committed m = B.committed m + if B.share = m then n else 0
  | .instantRedeem => ∃ n, B'.committed m + (if B.share = m then n else 0) = B.committed m
  | .burned m' => m' ≠ m → B'.committed m = B.committed m
  | _ => B'.committed m = B.committed m

/-- Supply created or destroyed outside the orders is committed shares created or
destroyed. -/
theorem Book.committed_update {C : Book ι} {m' : ι} {n : ℕ} (ho : C.orders = B.orders)
    (hs : C.supply = update B.supply m' n) (m : ι) :
    C.committed m + (if m' = m then B.supply m' else 0) =
      B.committed m + if m' = m then n else 0 := by
  have h := committed_of_orders ho m
  rw [hs, update_apply] at h
  grind

theorem Step.shareChange (h : Step B e B') (m : ι) : B.ShareChange e B' m := by
  have hneutral := fun he => h.committed_eq (m := m) he
  -- the steps that are not neutral, each with the shares it adds or takes
  cases h with
  | @approveDeposit k o esc net shares found side stage =>
    refine ⟨o, _, found, AList.lookup_insert _, ?_⟩
    rw [side]
    exact Book.committed_approveDeposit found side stage m
  | @approveRedeem k o esc gross net found side stage =>
    refine ⟨o, _, found, AList.lookup_insert _, ?_⟩
    rw [side]
    exact Book.committed_approveRedeem found side stage m
  | @instantDeposit esc net shares =>
    refine ⟨shares, ?_⟩
    have h := Book.committed_update (B := B) (C := { B with
      escrow := esc
      supply := update B.supply B.share (B.supply B.share + shares)
      assets := B.assets + net }) rfl rfl m
    grind
  | @instantRedeem esc gross shares plain valued covered live =>
    refine ⟨shares, ?_⟩
    have h := Book.committed_update (B := B) (C := { B with
      escrow := esc
      supply := update B.supply B.share (B.supply B.share - shares)
      assets := B.assets - gross }) rfl rfl m
    grind
  | @post esc nav feeShares =>
    refine ⟨feeShares, ?_⟩
    have h := Book.committed_update (B := B) (C := { B with
      nav := nav
      escrow := esc
      supply := update B.supply B.share (B.supply B.share + feeShares) }) rfl rfl m
    grind
  | waterfall => exact ⟨0, by simp only [ite_self, Nat.add_zero]; rfl⟩
  | @burn esc m' n live =>
    intro hm
    have h := Book.committed_update (B := B) (C := { B with
      escrow := esc
      supply := update B.supply m' (B.supply m' - n) }) rfl rfl m
    simp only [if_neg hm, Nat.add_zero] at h
    exact h
  -- and the neutral ones
  | openDeposit | openRedeem | claimDeposit | claimRedeem | skip | touch | split =>
    exact hneutral trivial
  | refundDeposit _ _ _ _ withdrawn | refundRedeem _ _ _ _ withdrawn =>
    cases withdrawn <;> exact hneutral trivial
  | idle label =>
    rcases label with rfl | rfl <;> exact hneutral trivial

/-! ### Cached supplies -/

/-- `m` is a share class of a tranched pool. -/
def Book.IsTranche (B : Book ι) (m : ι) : Prop :=
  ∃ t, B.tranches = some t ∧ (m = t.senior ∨ m = t.junior)

/-- The cached supply of every tranche covers its committed shares. -/
def Book.CoversShares (B : Book ι) : Prop :=
  ∀ m, B.IsTranche m → B.committed m ≤ B.cached m

/-- The cached supply of the tranche `m` is its committed shares. -/
def Book.CountsShares (B : Book ι) (m : ι) : Prop :=
  B.IsTranche m → B.cached m = B.committed m

/-- Shares of an empty book without supply. -/
theorem Book.committed_eq_zero (ho : B.orders = ∅) (hs : B.supply m = 0) : B.committed m = 0 := by
  simp [Book.committed, Book.claimableDeposits, Book.pendingRedeems, ho, hs]

/-- Live shares are committed ones. -/
theorem Book.supply_le_committed (B : Book ι) (m : ι) : B.supply m ≤ B.committed m := by
  unfold Book.committed
  omega

/-- Tranches are introduced once, over a pool without shares. -/
theorem Step.new_tranche (h : Step B e B') (hB : B.tranches = none) (hm : B'.IsTranche m) :
    B'.orders = ∅ ∧ B'.supply m = 0 ∧ B'.cached m = 0 := by
  obtain ⟨t, ht, -⟩ := hm
  cases h with
  | split whole empty unissued uncached => exact ⟨empty, by rw [unissued], by rw [uncached]⟩
  | _ => exact absurd (hB.symm.trans ht) (by simp)

theorem Step.tranches_eq (h : Step B e B') (hB : B.tranches ≠ none) : B'.tranches = B.tranches := by
  cases h with
  | split whole => exact absurd whole hB
  | _ => rfl

theorem Step.tranches_posted (h : Step B .posted B') : B'.tranches = B.tranches := by
  cases h with
  | refundDeposit _ _ _ _ withdrawn | refundRedeem _ _ _ _ withdrawn => cases withdrawn
  | _ => rfl

theorem Step.isTranche (h : Step B e B') (hm : B'.IsTranche m) :
    B.tranches = none ∨ B.IsTranche m := by
  by_cases hB : B.tranches = none
  · exact .inl hB
  · obtain ⟨t, ht, hm⟩ := hm
    exact .inr ⟨t, by rw [← h.tranches_eq hB, ht], hm⟩

/-- The cached supply of a tranche moves with its committed shares, but for
burns. -/
theorem Step.cached_add (h : Step B e B') (hB : B.CoversShares) (hm : B.IsTranche m)
    (he : e ≠ .burned m) : B'.cached m + B.committed m = B.cached m + B'.committed m := by
  have hc := hB m hm
  obtain ⟨t, ht, hmt⟩ := hm
  -- a neutral step writes neither side
  by_cases hn : e.Neutral
  · rw [h.committed_eq hn m]
    cases h with
    | approveDeposit | approveRedeem | waterfall => exact absurd hn id
    | _ => rfl
  cases h with
  | @approveDeposit k o esc net shares found side stage plain bought paid guarded =>
    -- an approval predicts from the larger of live and cached supply
    have hs := B.supply_le_committed m
    rw [Book.committed_approveDeposit found side stage]
    simp only [Book.approveDeposit, Book.recached, ht, Option.isSome_some, if_true, update_apply]
    grind
  | @approveRedeem k o esc gross net found side stage plain valued covered paid guarded =>
    have hs := Book.supply_add_le_committed found side stage
    have hd : (B.approveRedeem k o gross net esc).committed m + _ = _ :=
      Book.committed_approveRedeem found side stage m
    simp only [Book.approveRedeem, Book.recached, ht, Option.isSome_some, if_true,
      update_apply] at hd ⊢
    grind
  | instantDeposit plain | instantRedeem plain | post plain =>
    exact absurd (plain.symm.trans ht) (by simp)
  | @waterfall t' nav cached recorded tranched senior junior =>
    have htt : t' = t := Option.some.inj (tranched.symm.trans ht)
    have hs := B.supply_le_committed m
    have hw := committed_of_orders (B := B)
      (C := { B with nav := nav, cached := cached, recorded := recorded }) rfl m
    subst htt
    rcases hmt with rfl | rfl <;> simp only at hw ⊢ <;> omega
  | @burn esc m' n live kept =>
    have hne : m ≠ m' := fun hmm => he (congrArg Event.burned hmm.symm)
    have hw := committed_of_orders (B := B)
      (C := { B with escrow := esc, supply := update B.supply m' (B.supply m' - n) }) rfl m
    simp only [update_of_ne hne] at hw ⊢
    omega
  | refundDeposit _ _ _ _ withdrawn | refundRedeem _ _ _ _ withdrawn =>
    cases withdrawn <;> exact absurd trivial hn
  | idle => rfl
  | _ => exact absurd trivial hn

/-- A burn lowers the committed shares at most, and leaves the cache alone. -/
theorem Step.burned_le {m' : ι} (h : Step B (.burned m') B') (m : ι) :
    B'.cached m = B.cached m ∧ B'.committed m ≤ B.committed m := by
  cases h with
  | @burn esc m' n live kept =>
    have hw := committed_of_orders (B := B)
      (C := { B with escrow := esc, supply := update B.supply m' (B.supply m' - n) }) rfl m
    simp only [update_apply] at hw ⊢
    grind
  | refundDeposit _ _ _ _ withdrawn | refundRedeem _ _ _ _ withdrawn => cases withdrawn
  | idle label => rcases label with label | label <;> cases label

/-- **The cache covers every committed share**, whatever happens. -/
theorem Step.coversShares (h : Step B e B') (hB : B.CoversShares) : B'.CoversShares := by
  intro m hm
  rcases h.isTranche hm with hn | hm'
  · obtain ⟨ho, hs, -⟩ := h.new_tranche hn hm
    rw [Book.committed_eq_zero ho hs]
    exact Nat.zero_le _
  · have hc := hB m hm'
    by_cases he : e = .burned m
    · subst he
      have := h.burned_le m
      omega
    · have := h.cached_add hB hm' he
      omega

/-- **The cache counts the committed shares** of a tranche, as long as nobody
burns any. -/
theorem Step.countsShares (h : Step B e B') (hc : B.CoversShares) (he : e ≠ .burned m)
    (hB : B.CountsShares m) : B'.CountsShares m := by
  intro hm
  rcases h.isTranche hm with hn | hm'
  · obtain ⟨ho, hs, hc⟩ := h.new_tranche hn hm
    rw [hc, Book.committed_eq_zero ho hs]
  · have := h.cached_add hc hm' he
    have := hB hm'
    omega

/-! ### Solvency at one price -/

/-- The share of a pool without tranches never changes. -/
theorem Step.share_eq (h : Step B e B') : B'.share = B.share := by
  cases h <;> rfl

/-- A pool without tranches had none before. -/
theorem Step.plain (h : Step B e B') (hB : B'.tranches = none) : B.tranches = none := by
  by_contra hne
  exact hne ((h.tranches_eq hne).symm.trans hB)

/-- The assets of a pool cover its committed shares at price `n`. -/
def Book.Solvent (B : Book ι) (n : ℕ) : Prop :=
  n * B.committed B.share ≤ B.assets * B.unit B.share

/-- Events that exchange shares and assets at the current price. -/
def Event.Settles : Event ι → Prop
  | .approved _ | .instantDeposit | .instantRedeem => True
  | _ => False

instance (e : Event ι) : Decidable e.Settles :=
  match e with
  | .approved _ | .instantDeposit | .instantRedeem => .isTrue trivial
  | .opened _ | .claimed _ | .refunded _ | .canceled _ | .skipped _ | .touched _ | .posted
  | .burned _ | .configured | .outside => .isFalse id

theorem Book.price_of_plain (h : B.tranches = none) (m : ι) : B.price m = B.nav := by
  simp [Book.price, h]

/-- **Solvency at one price**: while every settlement of a pool without tranches
is at the price `n` and no fee shares are created, the pool's assets cover its
committed shares at `n`. -/
theorem Step.solvent {n : ℕ} (h : Step B e B') (hplain : B'.tranches = none)
    (hnav : e.Settles → B.nav = n) (hfee : e = .posted → B'.supply B.share = B.supply B.share)
    (hB : B.Solvent n) : B'.Solvent n := by
  unfold Book.Solvent at hB ⊢
  -- a neutral step leaves assets and committed shares
  by_cases hn : e.Neutral
  · rw [h.committed_eq hn]
    cases h with
    | approveDeposit | approveRedeem | instantDeposit | instantRedeem | post | waterfall | burn =>
      exact absurd hn id
    | split => cases hplain
    | _ => exact hB
  cases h with
  | @approveDeposit k o esc net shares found side stage plain bought paid guarded =>
    have hpl : B.tranches = none := hplain
    -- shares are bought for no less than they are worth at the price
    have hpaid := sharesFor_mul_le (B.unit o.share) (B.price o.share) net
    rw [← bought, Book.price_of_plain hpl, hnav trivial, plain hpl] at hpaid
    rw [Book.committed_approveDeposit found side stage]
    simp only [Book.approveDeposit, plain hpl, if_true]
    nlinarith
  | @approveRedeem k o esc gross net found side stage plain valued covered paid guarded =>
    have hpl : B.tranches = none := hplain
    -- and redeemed for no more
    have hpaid := worth_mul_le (B.unit o.share) o.amount (B.price o.share)
    rw [← valued, Book.price_of_plain hpl, hnav trivial, plain hpl] at hpaid
    have hd : (B.approveRedeem k o gross net esc).committed B.share + _ = _ :=
      Book.committed_approveRedeem found side stage B.share
    simp only [Book.approveRedeem, plain hpl, if_true] at hd ⊢
    rw [← hd, Nat.mul_add] at hB
    rw [Nat.sub_mul]
    have hle : gross * B.unit B.share ≤ n * o.amount := by linarith
    omega
  | @instantDeposit esc net shares plain bought kept =>
    have hpaid := sharesFor_mul_le (B.unit B.share) B.nav net
    rw [← bought, hnav trivial] at hpaid
    have hd := committed_of_orders (B := B) (C := { B with
      escrow := esc, supply := update B.supply B.share (B.supply B.share + shares),
      assets := B.assets + net }) rfl B.share
    simp only [update_self] at hd ⊢
    rw [show Book.committed _ B.share = B.committed B.share + shares by omega]
    nlinarith
  | @instantRedeem esc gross shares plain valued covered live kept =>
    have hpaid := worth_mul_le (B.unit B.share) shares B.nav
    rw [← valued, hnav trivial] at hpaid
    have hd := committed_of_orders (B := B) (C := { B with
      escrow := esc, supply := update B.supply B.share (B.supply B.share - shares),
      assets := B.assets - gross }) rfl B.share
    simp only [update_self] at hd ⊢
    have hsum : B.committed B.share = Book.committed { B with
      escrow := esc, supply := update B.supply B.share (B.supply B.share - shares),
      assets := B.assets - gross } B.share + shares := by omega
    rw [hsum, Nat.mul_add] at hB
    rw [Nat.sub_mul]
    have hle : gross * B.unit B.share ≤ n * shares := by linarith
    omega
  | @post esc nav feeShares plain kept =>
    -- posting a NAV creates no shares here
    have hs := hfee rfl
    have hd := committed_of_orders (B := B) (C := { B with
      nav := nav, escrow := esc,
      supply := update B.supply B.share (B.supply B.share + feeShares) }) rfl B.share
    simp only [update_self] at hs hd ⊢
    rwa [show Book.committed _ B.share = B.committed B.share by omega]
  | waterfall tranched => exact absurd (hplain.symm.trans tranched) (by simp)
  | @burn esc m n' live kept =>
    have hd := committed_of_orders (B := B)
      (C := { B with escrow := esc, supply := update B.supply m (B.supply m - n') }) rfl B.share
    simp only [update_apply] at hd ⊢
    refine (Nat.mul_le_mul_left n ?_).trans hB
    grind
  | refundDeposit _ _ _ _ withdrawn | refundRedeem _ _ _ _ withdrawn =>
    cases withdrawn <;> exact absurd trivial hn
  | idle => exact hB
  | _ => exact absurd trivial hn

/-! ### Unused books -/

/-- A book nobody has used yet. -/
structure Book.Unused (B : Book ι) : Prop where
  orders : B.orders = ∅
  openCount : B.openCount = 0
  reserved : B.reserved = fun _ => 0
  supply : B.supply = fun _ => 0
  tranches : B.tranches = none

theorem Book.Unused.escrowedAt (h : B.Unused) (m : ι) : B.EscrowedAt m := by
  constructor <;> simp [h.reserved, Book.pendingDeposits, Book.claimableRedeems, h.orders]

theorem Book.Unused.openCount_eq (h : B.Unused) : B.openCount = B.openOrders := by
  simp [h.openCount, Book.openOrders, h.orders]

theorem Book.Unused.countsShares (h : B.Unused) (m : ι) : B.CountsShares m := by
  rintro ⟨t, ht, -⟩
  rw [h.tranches] at ht
  cases ht

theorem Book.Unused.coversShares (h : B.Unused) : B.CoversShares :=
  fun m hm => (h.countsShares m hm).ge

/-- A solvent pool can pay for any part of its committed shares. -/
theorem Book.Solvent.worth_le {n shares : ℕ} (h : B.Solvent n)
    (hle : shares ≤ B.committed B.share) : worth (B.unit B.share) shares n ≤ B.assets := by
  unfold Book.Solvent at h
  apply Nat.div_le_of_le_mul
  calc shares * n ≤ B.committed B.share * n := Nat.mul_le_mul_right n hle
    _ = n * B.committed B.share := Nat.mul_comm _ _
    _ ≤ B.assets * B.unit B.share := h
    _ = B.unit B.share * B.assets := Nat.mul_comm _ _

theorem Book.Unused.solvent (h : B.Unused) (n : ℕ) : B.Solvent n := by
  rw [Book.Solvent, Book.committed_eq_zero h.orders (by rw [h.supply])]
  exact Nat.zero_le _

/-! ### The junior floor -/

/-- A floor survives less senior and more junior value. -/
theorem RatioHolds.mono {r s j s' j' : ℕ} (h : RatioHolds r s j) (hr : r ≤ 10000) (hs : s' ≤ s)
    (hj : j ≤ j') : RatioHolds r s' j' := by
  by_cases h0 : s' + j' = 0
  · exact .inl h0
  refine .inr ((Nat.le_div_iff_mul_le (Nat.pos_of_ne_zero h0)).2 ?_)
  have hold : r * (s + j) ≤ j * 10000 := by
    rcases h with h | h
    · obtain ⟨rfl, rfl⟩ := Nat.add_eq_zero_iff.1 h
      simp
    · by_cases h1 : s + j = 0
      · simp [h1]
      · exact (Nat.le_div_iff_mul_le (Nat.pos_of_ne_zero h1)).1 h
  obtain ⟨d, rfl⟩ := Nat.exists_eq_add_of_le hj
  calc r * (s' + (j + d)) ≤ r * (s + j) + r * d := by
        rw [← Nat.mul_add]
        exact Nat.mul_le_mul_left r (by omega)
    _ ≤ j * 10000 + d * 10000 := by
        have := Nat.mul_le_mul_right d hr
        omega
    _ = (j + d) * 10000 := by ring

/-- A ratio in whole basis points, multiplied out. -/
theorem RatioHolds.mul_le {m senior junior : ℕ} (h : RatioHolds m senior junior) :
    m * (senior + junior) ≤ junior * 10000 := by
  rcases h with h | h
  · rw [h]
    exact Nat.zero_le _
  · exact (Nat.mul_le_mul_right _ h).trans (Nat.div_mul_le_self _ _)

/-- The two share classes differ and the minimum is at most the whole. -/
def Book.Valid (B : Book ι) : Prop :=
  ∀ t, B.tranches = some t → t.senior ≠ t.junior ∧ t.minRatio ≤ 10000

/-- Where the cache covers the live supply, the guard values the cached supply. -/
theorem Book.guardWorth_eq (hB : B.CoversShares) (hm : B.IsTranche m) :
    B.guardWorth m = worth (B.unit m) (B.cached m) (B.price m) := by
  have := hB m hm
  have := B.supply_le_committed m
  rw [Book.guardWorth, max_eq_right (by omega)]

/-- Other escrows, units of other assets and fewer live shares: the cache still covers them. -/
theorem Book.CoversShares.fewer (hB : B.CoversShares) {esc supply unit : ι → ℕ}
    (hs : ∀ m, B.IsTranche m → supply m ≤ B.supply m) :
    Book.CoversShares { B with escrow := esc, supply := supply, unit := unit } := by
  intro m hm
  have hcover := hB m hm
  have hle := hs m hm
  simp only [Book.committed, Book.claimableDeposits, Book.pendingRedeems] at hcover ⊢
  omega

/-- And the guard values every tranche as before. -/
theorem Book.FloorHolds.fewer (h : B.FloorHolds) (hB : B.CoversShares) {esc supply unit : ι → ℕ}
    (hs : ∀ m, B.IsTranche m → supply m ≤ B.supply m)
    (hu : ∀ m, B.IsTranche m → unit m = B.unit m) :
    Book.FloorHolds { B with escrow := esc, supply := supply, unit := unit } := by
  have hworth : ∀ m, B.IsTranche m →
      Book.guardWorth { B with escrow := esc, supply := supply, unit := unit } m =
        B.guardWorth m := by
    intro m hm
    rw [Book.guardWorth_eq (hB.fewer hs) hm, Book.guardWorth_eq hB hm]
    show worth (unit m) (B.cached m) (B.price m) = _
    rw [hu m hm]
  intro t ht hmin
  rw [hworth _ ⟨t, ht, .inl rfl⟩, hworth _ ⟨t, ht, .inr rfl⟩]
  exact h t ht hmin

/-- The guard valuation of a tranche depends on its cache and price only. -/
theorem Step.guardWorth_eq (h : Step B e B') (hB : B.CoversShares) (hm : B.IsTranche m)
    (hterms : B'.cached = B.cached ∧ B'.recorded = B.recorded ∧ B'.unit = B.unit ∧
      B'.tranches = B.tranches ∧ B'.nav = B.nav) : B'.guardWorth m = B.guardWorth m := by
  obtain ⟨hc, hr, hu, ht, hn⟩ := hterms
  have hm' : B'.IsTranche m := by
    obtain ⟨t, htr, hmt⟩ := hm
    exact ⟨t, by rw [ht, htr], hmt⟩
  rw [Book.guardWorth_eq (h.coversShares hB) hm', Book.guardWorth_eq hB hm, Book.price, Book.price,
    hc, hr, hu, ht, hn]

/-- What a step other than a settlement or a NAV update keeps of a tranched
pool. -/
theorem Step.terms_eq (h : Step B e B') (ht : B.tranches ≠ none) (hs : ¬e.Settles)
    (hp : e ≠ .posted) :
    B'.cached = B.cached ∧ B'.recorded = B.recorded ∧ B'.unit = B.unit ∧
      B'.tranches = B.tranches ∧ B'.nav = B.nav := by
  cases h with
  | approveDeposit | approveRedeem | instantDeposit | instantRedeem => exact absurd trivial hs
  | post | waterfall => exact absurd rfl hp
  | split whole => exact absurd whole ht
  | _ => exact ⟨rfl, rfl, rfl, rfl, rfl⟩

/-- Recorded prices and the pool's own price change by a NAV update only. -/
theorem Step.recorded_eq (h : Step B e B') (hp : e ≠ .posted) :
    B'.recorded = B.recorded ∧ B'.nav = B.nav := by
  cases h with
  | post | waterfall => exact absurd rfl hp
  | _ => exact ⟨rfl, rfl⟩

/-- An approval that the guard is about leaves the floor in place. -/
theorem Step.guarded (h : Step B (.approved k) B') (found : B.orders.lookup k = some o)
    (hg : B.Guards o.side o.share) : B'.FloorHolds := by
  cases h with
  | @approveDeposit k o' esc net shares found' side stage plain bought paid guarded =>
    obtain rfl := Option.some.inj (found.symm.trans found')
    exact guarded (side ▸ hg)
  | @approveRedeem k o' esc gross net found' side stage plain valued covered paid guarded =>
    obtain rfl := Option.some.inj (found.symm.trans found')
    exact guarded (side ▸ hg)
  | refundDeposit _ _ _ _ withdrawn | refundRedeem _ _ _ _ withdrawn => cases withdrawn
  | idle label => rcases label with h | h <;> cases h

/-- **The junior floor is kept between NAV updates.** -/
theorem Step.floorHolds (h : Step B e B') (hc : B.CoversShares) (hv : B.Valid)
    (hp : e ≠ .posted) (hB : B.FloorHolds) : B'.FloorHolds := by
  intro t ht hmin
  by_cases htr : B.tranches = none
  · -- tranches just introduced are worth nothing
    have hzero : ∀ m, B'.IsTranche m → B'.guardWorth m = 0 := fun m hm => by
      obtain ⟨-, hs, hca⟩ := h.new_tranche htr hm
      simp [Book.guardWorth, hs, hca]
    exact .inl (by rw [hzero _ ⟨t, ht, .inl rfl⟩, hzero _ ⟨t, ht, .inr rfl⟩])
  rw [h.tranches_eq htr] at ht
  obtain ⟨hne, hle⟩ := hv t ht
  have hold := hB t ht hmin
  by_cases hs : e.Settles
  · cases h with
    | @approveDeposit k o esc net shares found side stage plain bought paid guarded =>
      by_cases hg : B.Guards .deposit o.share
      · exact guarded hg t ht hmin
      -- a junior deposit: junior's cache grows, senior's stays
      have hsen : o.share ≠ t.senior := fun hs => hg ⟨t, ht, .inl ⟨rfl, hs⟩⟩
      refine hold.mono hle (le_of_eq ?_) (worth_mono_shares ?_)
      · simp [Book.guardWorth, Book.price, Book.approveDeposit, Book.recached, ht,
          update_of_ne hsen.symm]
      · simp only [Book.approveDeposit, Book.recached, ht, Option.isSome_some, if_true,
          update_apply]
        grind
    | @approveRedeem k o esc gross net found side stage plain valued covered paid guarded =>
      by_cases hg : B.Guards .redeem o.share
      · exact guarded hg t ht hmin
      -- a senior redemption: senior's cache falls, junior's stays
      have hjun : o.share ≠ t.junior := fun hs => hg ⟨t, ht, .inr ⟨rfl, hs⟩⟩
      refine hold.mono hle (worth_mono_shares ?_) (ge_of_eq ?_)
      · simp only [Book.approveRedeem, Book.recached, ht, Option.isSome_some, if_true, update_apply]
        grind
      · simp [Book.guardWorth, Book.price, Book.approveRedeem, Book.recached, ht,
          update_of_ne hjun.symm]
    | instantDeposit plain | instantRedeem plain => exact absurd plain htr
    | refundDeposit _ _ _ _ withdrawn | refundRedeem _ _ _ _ withdrawn =>
      cases withdrawn <;> exact absurd hs id
    | idle label => rcases label with rfl | rfl <;> exact absurd hs id
    | _ => exact absurd hs id
  · have hterms := h.terms_eq htr hs hp
    rw [h.guardWorth_eq hc ⟨t, ht, .inl rfl⟩ hterms, h.guardWorth_eq hc ⟨t, ht, .inr rfl⟩ hterms]
    exact hold

end OrderBook
