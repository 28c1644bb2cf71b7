/-
AsyncVault/Lib/OrderBook.lean

A book of two-step orders against a pool.

Users place *orders*: to deposit an asset for shares, or to redeem shares for an
asset.  An order is pending until the pool approves it, then claimable until its
owner collects; a pending order may instead be refunded at once, or canceled
(refunded, its record kept until a queue has passed it).  What an order has
taken is parked: deposited assets in the escrow of their kind, redeemed shares
nowhere at all (they are destroyed, and created again on a refund).

`Book` is what such a pool keeps: the orders and, beside them, counters that are
updated one instruction at a time.  `Step` says what each kind of event does to
the book.  That the counters mean what they are meant to is proved in
`OrderBookLaws`.

Escrow and supply are bounded by inequalities where third parties may add to the
one (by donating) or take from the other (by burning).
-/
import AsyncVault.Lib.FixedPoint
import AsyncVault.Lib.KeyedStore
import Mathlib.Order.Basic
import Mathlib.Logic.Function.Basic

namespace OrderBook

open Function KeyedStore FixedPoint

/-! ### Orders -/

inductive Side
  | deposit
  | redeem
  deriving DecidableEq

inductive Stage
  | pending
  | claimable
  | canceled
  deriving DecidableEq

structure Order (ι : Type) where
  owner : ι
  side : Side
  stage : Stage
  asset : ι
  share : ι
  /-- Assets deposited or shares redeemed; once claimable, what is owed. -/
  amount : ℕ

variable {ι : Type} [DecidableEq ι]

namespace Order

/-- What an order of the given side and stage adds to the tally of asset `m`. -/
def inAsset (side : Side) (stage : Stage) (m : ι) (o : Order ι) : ℕ :=
  if o.side = side ∧ o.stage = stage ∧ o.asset = m then o.amount else 0

/-- What an order of the given side and stage adds to the tally of share `m`. -/
def inShare (side : Side) (stage : Stage) (m : ι) (o : Order ι) : ℕ :=
  if o.side = side ∧ o.stage = stage ∧ o.share = m then o.amount else 0

omit [DecidableEq ι] in
/-- One for a pending order. -/
def isOpen (o : Order ι) : ℕ := if o.stage = .pending then 1 else 0

end Order

/-! ### The book -/

/-- The two share classes of a tranched pool, and the least part of the value
that junior must keep, in basis points. -/
structure Tranches (ι : Type) where
  senior : ι
  junior : ι
  minRatio : ℕ

@[ext]
structure Book (ι : Type) [DecidableEq ι] where
  orders : Store ι (Order ι)
  openCount : ℕ
  reserved : ι → ℕ
  escrow : ι → ℕ
  supply : ι → ℕ
  /-- Cached supply of a tranche's shares. -/
  cached : ι → ℕ
  /-- Recorded price of a tranche's shares; zero for none. -/
  recorded : ι → ℕ
  unit : ι → ℕ
  tranches : Option (Tranches ι)
  /-- The one share of a pool without tranches. -/
  share : ι
  nav : ℕ
  assets : ℕ

namespace Book

variable (B : Book ι) (m : ι)

/-- Pending deposits of an asset. -/
def pendingDeposits : ℕ := total (Order.inAsset .deposit .pending m) B.orders

/-- Assets owed on approved redemptions. -/
def claimableRedeems : ℕ := total (Order.inAsset .redeem .claimable m) B.orders

/-- Shares owed on approved deposits. -/
def claimableDeposits : ℕ := total (Order.inShare .deposit .claimable m) B.orders

/-- Shares of pending redemptions. -/
def pendingRedeems : ℕ := total (Order.inShare .redeem .pending m) B.orders

/-- How many orders are pending. -/
def openOrders : ℕ := total Order.isOpen B.orders

/-- Shares outstanding, counting those in flight: live shares, shares owed on
approved deposits and shares given up for pending redemptions. -/
def committed : ℕ := B.supply m + B.claimableDeposits m + B.pendingRedeems m

/-- The price of a share: in a tranched pool the recorded one when there is one,
the pool's otherwise. -/
def price : ℕ := if B.tranches.isSome ∧ 0 < B.recorded m then B.recorded m else B.nav

/-- The value of a tranche as the guard takes it: the larger of live and cached
supply, at the tranche's price. -/
def guardWorth : ℕ := worth (B.unit m) (max (B.supply m) (B.cached m)) (B.price m)

end Book

/-- Junior keeps at least `minRatio` basis points of a value split into `senior`
and `junior`, or there is nothing to split. -/
def RatioHolds (minRatio senior junior : ℕ) : Prop :=
  senior + junior = 0 ∨ minRatio ≤ junior * 10000 / (senior + junior)

/-- **The junior floor**: in a tranched pool with a positive minimum, junior keeps
its part of the guard valuation. -/
def Book.FloorHolds (B : Book ι) : Prop :=
  ∀ t, B.tranches = some t → 0 < t.minRatio →
    RatioHolds t.minRatio (B.guardWorth t.senior) (B.guardWorth t.junior)

/-- The settlements that can lower junior's part. -/
def Book.Guards (B : Book ι) (side : Side) (m : ι) : Prop :=
  ∃ t, B.tranches = some t ∧
    ((side = .deposit ∧ m = t.senior) ∨ (side = .redeem ∧ m = t.junior))

/-! ### Steps -/

/-- What happened, as an observer of the pool would name it. -/
inductive Event (ι : Type)
  | opened (k : ι)
  | approved (k : ι)
  | claimed (k : ι)
  | refunded (k : ι)
  | canceled (k : ι)
  | skipped (k : ι)
  | touched (k : ι)
  | instantDeposit
  | instantRedeem
  | posted
  | burned (m : ι)
  | configured
  | outside
  deriving DecidableEq

/-- Asset `m` gains at least `inn` and loses at most `out`; no other asset loses
anything. -/
structure Moved (esc esc' : ι → ℕ) (m : ι) (inn out : ℕ) : Prop where
  moved : esc m + inn ≤ esc' m + out
  other : ∀ m', m' ≠ m → esc m' ≤ esc' m'

omit [DecidableEq ι] in
theorem Moved.of_le {esc esc' : ι → ℕ} (h : esc ≤ esc') (m : ι) : Moved esc esc' m 0 0 :=
  ⟨h m, fun m' _ => h m'⟩

omit [DecidableEq ι] in
theorem Moved.escrow_le {esc esc' : ι → ℕ} {m : ι} (h : Moved esc esc' m 0 0) : esc ≤ esc' := by
  intro m'
  by_cases hm : m' = m
  · subst hm
    exact h.moved
  · exact h.other m' hm

omit [DecidableEq ι] in
/-- Every gain is that of some move. -/
theorem exists_moved (m : ι) (inn out : ℕ) : ∃ esc esc' : ι → ℕ, Moved esc esc' m inn out :=
  ⟨fun _ => 0, fun _ => inn, by omega, fun _ _ => Nat.zero_le _⟩

/-- The order's record after a refund: gone, or kept as canceled. -/
inductive Withdrawn (orders : Store ι (Order ι)) (k : ι) (o : Order ι) :
    Event ι → Store ι (Order ι) → Prop
  | refunded : Withdrawn orders k o (.refunded k) (orders.erase k)
  | canceled : Withdrawn orders k o (.canceled k) (orders.insert k { o with stage := .canceled })

namespace Book

/-- The cached supplies after recording `n` for a tranche; a pool without tranches
caches nothing. -/
def recached (B : Book ι) (m : ι) (n : ℕ) : ι → ℕ :=
  if B.tranches.isSome then update B.cached m n else B.cached

/-- An approved deposit of which `net` assets buy `shares`. -/
def approveDeposit (B : Book ι) (k : ι) (o : Order ι) (net shares : ℕ) (esc : ι → ℕ) : Book ι :=
  { B with
    orders := B.orders.insert k { o with amount := shares, stage := .claimable }
    openCount := B.openCount - 1
    reserved := update B.reserved o.asset (B.reserved o.asset - o.amount)
    escrow := esc
    cached := B.recached o.share (max (B.cached o.share) (B.supply o.share) + shares)
    assets := B.assets + net }

/-- An approved redemption worth `gross` assets, of which `net` are paid. -/
def approveRedeem (B : Book ι) (k : ι) (o : Order ι) (gross net : ℕ) (esc : ι → ℕ) : Book ι :=
  { B with
    orders := B.orders.insert k { o with amount := net, stage := .claimable }
    openCount := B.openCount - 1
    escrow := esc
    cached := B.recached o.share
      (max (B.cached o.share) (B.supply o.share + o.amount) - o.amount)
    assets := B.assets - gross }

end Book

/-- One event of the pool. -/
inductive Step : Book ι → Event ι → Book ι → Prop
  | openDeposit {B : Book ι} {k : ι} {o : Order ι} {esc : ι → ℕ}
      (free : B.orders.lookup k = none) (side : o.side = .deposit) (stage : o.stage = .pending)
      (paid : Moved B.escrow esc o.asset o.amount 0) :
      Step B (.opened k)
        { B with
          orders := B.orders.insert k o
          openCount := B.openCount + 1
          reserved := update B.reserved o.asset (B.reserved o.asset + o.amount)
          escrow := esc }
  | openRedeem {B : Book ι} {k : ι} {o : Order ι} {esc : ι → ℕ}
      (free : B.orders.lookup k = none) (side : o.side = .redeem) (stage : o.stage = .pending)
      (live : o.amount ≤ B.supply o.share) (kept : B.escrow ≤ esc) :
      Step B (.opened k)
        { B with
          orders := B.orders.insert k o
          openCount := B.openCount + 1
          escrow := esc
          supply := update B.supply o.share (B.supply o.share - o.amount) }
  | approveDeposit {B : Book ι} {k : ι} {o : Order ι} {esc : ι → ℕ} {net shares : ℕ}
      (found : B.orders.lookup k = some o) (side : o.side = .deposit) (stage : o.stage = .pending)
      (plain : B.tranches = none → o.share = B.share)
      (bought : shares = sharesFor (B.unit o.share) (B.price o.share) net)
      (paid : Moved B.escrow esc o.asset 0 o.amount)
      (guarded : B.Guards .deposit o.share → (B.approveDeposit k o net shares esc).FloorHolds) :
      Step B (.approved k) (B.approveDeposit k o net shares esc)
  | approveRedeem {B : Book ι} {k : ι} {o : Order ι} {esc : ι → ℕ} {gross net : ℕ}
      (found : B.orders.lookup k = some o) (side : o.side = .redeem) (stage : o.stage = .pending)
      (plain : B.tranches = none → o.share = B.share)
      (valued : gross = worth (B.unit o.share) o.amount (B.price o.share))
      (covered : gross ≤ B.assets)
      (paid : Moved B.escrow esc o.asset net 0)
      (guarded : B.Guards .redeem o.share → (B.approveRedeem k o gross net esc).FloorHolds) :
      Step B (.approved k) (B.approveRedeem k o gross net esc)
  | claimDeposit {B : Book ι} {k : ι} {o : Order ι} {esc : ι → ℕ}
      (found : B.orders.lookup k = some o) (side : o.side = .deposit)
      (stage : o.stage = .claimable) (kept : B.escrow ≤ esc) :
      Step B (.claimed k)
        { B with
          orders := B.orders.erase k
          escrow := esc
          supply := update B.supply o.share (B.supply o.share + o.amount) }
  | claimRedeem {B : Book ι} {k : ι} {o : Order ι} {esc : ι → ℕ}
      (found : B.orders.lookup k = some o) (side : o.side = .redeem)
      (stage : o.stage = .claimable) (paid : Moved B.escrow esc o.asset 0 o.amount) :
      Step B (.claimed k) { B with orders := B.orders.erase k, escrow := esc }
  | refundDeposit {B : Book ι} {k : ι} {o : Order ι} {esc : ι → ℕ} {e : Event ι}
      {orders : Store ι (Order ι)}
      (found : B.orders.lookup k = some o) (side : o.side = .deposit) (stage : o.stage = .pending)
      (paid : Moved B.escrow esc o.asset 0 o.amount)
      (withdrawn : Withdrawn B.orders k o e orders) :
      Step B e
        { B with
          orders := orders
          openCount := B.openCount - 1
          reserved := update B.reserved o.asset (B.reserved o.asset - o.amount)
          escrow := esc }
  | refundRedeem {B : Book ι} {k : ι} {o : Order ι} {esc : ι → ℕ} {e : Event ι}
      {orders : Store ι (Order ι)}
      (found : B.orders.lookup k = some o) (side : o.side = .redeem) (stage : o.stage = .pending)
      (kept : B.escrow ≤ esc) (withdrawn : Withdrawn B.orders k o e orders) :
      Step B e
        { B with
          orders := orders
          openCount := B.openCount - 1
          escrow := esc
          supply := update B.supply o.share (B.supply o.share + o.amount) }
  | skip {B : Book ι} {k : ι} {o : Order ι}
      (found : B.orders.lookup k = some o) (stage : o.stage = .canceled) :
      Step B (.skipped k) { B with orders := B.orders.erase k }
  | touch {B : Book ι} {k : ι} {o : Order ι} (found : B.orders.lookup k = some o) :
      Step B (.touched k) { B with orders := B.orders.insert k o }
  | instantDeposit {B : Book ι} {esc : ι → ℕ} {net shares : ℕ}
      (plain : B.tranches = none)
      (bought : shares = sharesFor (B.unit B.share) B.nav net) (kept : B.escrow ≤ esc) :
      Step B .instantDeposit
        { B with
          escrow := esc
          supply := update B.supply B.share (B.supply B.share + shares)
          assets := B.assets + net }
  | instantRedeem {B : Book ι} {esc : ι → ℕ} {gross shares : ℕ}
      (plain : B.tranches = none)
      (valued : gross = worth (B.unit B.share) shares B.nav)
      (covered : gross ≤ B.assets) (live : shares ≤ B.supply B.share) (kept : B.escrow ≤ esc) :
      Step B .instantRedeem
        { B with
          escrow := esc
          supply := update B.supply B.share (B.supply B.share - shares)
          assets := B.assets - gross }
  | post {B : Book ι} {esc : ι → ℕ} {nav feeShares : ℕ} (plain : B.tranches = none)
      (kept : B.escrow ≤ esc) :
      Step B .posted
        { B with
          nav := nav
          escrow := esc
          supply := update B.supply B.share (B.supply B.share + feeShares) }
  | waterfall {B : Book ι} {t : Tranches ι} {nav : ℕ} {cached recorded : ι → ℕ}
      (tranched : B.tranches = some t)
      (senior : cached t.senior = max (B.supply t.senior) (B.cached t.senior))
      (junior : cached t.junior = max (B.supply t.junior) (B.cached t.junior)) :
      Step B .posted { B with nav := nav, cached := cached, recorded := recorded }
  | burn {B : Book ι} {esc : ι → ℕ} {m : ι} {n : ℕ} (live : n ≤ B.supply m)
      (kept : B.escrow ≤ esc) :
      Step B (.burned m)
        { B with escrow := esc, supply := update B.supply m (B.supply m - n) }
  | split {B : Book ι} {t : Tranches ι} {unit : ι → ℕ} (whole : B.tranches = none)
      (empty : B.orders = ∅) (unissued : B.supply = fun _ => 0) (uncached : B.cached = fun _ => 0) :
      Step B .configured { B with tranches := some t, unit := unit }
  | idle {B : Book ι} {esc : ι → ℕ} {e : Event ι}
      (label : e = .configured ∨ e = .outside) (kept : B.escrow ≤ esc) :
      Step B e { B with escrow := esc }

end OrderBook
