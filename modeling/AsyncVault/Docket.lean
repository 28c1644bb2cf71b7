/-
AsyncVault/Docket.lean

The docket of a vault: its requests, the lanes they queue in, and what is
reserved for them.

None of this depends on where tokens are, so what is said here holds whatever
other programs do with the vault's tokens.  A lane belongs to a share mint and a
request type; on a plain vault, which has one share mint, to the type alone.
A request enters its lane when it is opened, with the next id if the lane is a
queue, and is processed when it is approved, rejected or skipped, which in a
queue takes the id after the last one processed.

`DocketMove` is the effect of each request instruction on the docket; a move
carries what the instruction has checked.  `DocketStep` is the effect of any
transaction.
-/
import AsyncVault.ConfigEffects

namespace AsyncVault

open KeyedStore

/-! ### Lanes and reservations -/

/-- The queue of each lane that is one. -/
abbrev Lanes := Pubkey → RequestType → Option FifoQueue

/-- Requests, lanes and reservations; `tranched` says whether lanes are kept per share
mint. -/
@[ext] structure Docket where
  requests : Store Pubkey Request
  tranched : Bool
  lane : Lanes
  assetMint : Pubkey
  depositCap : ℕ
  totalAssetBalance : ℕ
  pendingDepositAmount : ℕ

/-- The lane of a share mint and request type.  On a tranche vault the queue extensions say
whether there are queues, and the tranche configuration keeps them. -/
def VaultState.lane (s : VaultState) : Lanes := fun m t =>
  match s.vault.trancheConfig with
  | none => s.extensions.queue t
  | some _ =>
    if s.extensions.hasFifoQueue t then
      s.trancheConfig.bind fun tc => (tc.lane m t).toOption
    else
      none

/-- The lanes of a tranche configuration. -/
def TrancheConfig.lanes (tc : TrancheConfig) : Lanes := fun m t => (tc.lane m t).toOption

def VaultState.docket (s : VaultState) : Docket where
  requests := s.requests
  tranched := s.vault.trancheConfig.isSome
  lane := s.lane
  assetMint := s.vault.assetMint
  depositCap := s.vault.depositCap
  totalAssetBalance := s.vault.totalAssetBalance
  pendingDepositAmount := s.vault.pendingDepositAmount

/-- A request that has not been approved. -/
def Request.Unprocessed (r : Request) : Prop :=
  r.requestState = .pending ∨ r.requestState = .canceled

instance (r : Request) : Decidable r.Unprocessed := inferInstanceAs (Decidable (_ ∨ _))

namespace Docket

variable (d : Docket) (m : Pubkey) (t : RequestType) (r : Request)

/-- What a pending deposit of the primary asset reserves. -/
def reserves : ℕ :=
  if r.requestType = .deposit ∧ r.requestState = .pending ∧ r.assetMintAddress = d.assetMint then
    r.amount
  else 0

/-- A request is in the lane of `m` and `t`. -/
def InLane : Prop := r.requestType = t ∧ (d.tranched = true → r.shareMintAddress = m)

instance : Decidable (d.InLane m t r) := inferInstanceAs (Decidable (_ ∧ _))

/-- The place of a request in the lane of `m` and `t`: whether it waits there, and with which
id. -/
def place : Option (Option ℕ) :=
  if d.InLane m t r ∧ r.Unprocessed then some (r.queueId t) else none

/-- Who waits in the lane of `m` and `t`. -/
def waiting (k : Pubkey) : Option (Option ℕ) := (d.requests.lookup k).bind (d.place m t)

def setLane (q : FifoQueue) : Lanes := fun m' t' =>
  if t' = t ∧ (d.tranched = true → m' = m) then some q else d.lane m' t'

/-- Enter a lane: the lanes, and the id when the lane is a queue. -/
def enqueue : Lanes × Option ℕ :=
  match d.lane m t with
  | none => (d.lane, none)
  | some q => (d.setLane m t q.incrementTotal, some q.incrementTotal.total)

/-- Leave a lane; in a queue only the request with the expected id may. -/
def dequeue : Option Lanes :=
  match d.lane r.shareMintAddress r.requestType with
  | none => some d.lane
  | some q =>
    if r.queueId r.requestType = some q.expected then
      some (d.setLane r.shareMintAddress r.requestType { q with lastProcessed := q.expected })
    else
      none

end Docket

/-! ### Moves -/

/-- The account and type of the request an instruction opens. -/
def RequestInstruction.opens : RequestInstruction → Option (Pubkey × RequestType)
  | .createDepositRequest ctx _ => some (ctx.request, .deposit)
  | .createRedeemRequest ctx _ => some (ctx.request, .redeem)
  | _ => none

/-- The account of the request an instruction leaves as a tombstone. -/
def RequestInstruction.parks : RequestInstruction → Option Pubkey
  | .cancelQueuedDepositRequest ctx => some ctx.request
  | .cancelQueuedRedemptionRequest ctx => some ctx.request
  | _ => none

/-- The account of the request an instruction processes. -/
def RequestInstruction.processes : RequestInstruction → Option Pubkey
  | .approveRequest ctx _ => some ctx.request
  | .rejectRequest _ _ ctx _ => some ctx.request
  | .skipCanceledQueueRequest k _ => some k
  | _ => none

/-- **The effect of a request instruction on the docket.** -/
inductive DocketMove (d : Docket) : RequestInstruction → Docket → Prop
  | opened {i k r lane} (opens : i.opens = some (k, r.requestType))
      (fresh : d.requests.lookup k = none) (pending : r.requestState = .pending)
      (enqueued : d.enqueue r.shareMintAddress r.requestType = (lane, r.queueId r.requestType))
      (capped : 0 < d.reserves r → d.depositCap = 0 ∨
        d.totalAssetBalance + d.pendingDepositAmount + d.reserves r ≤ d.depositCap) :
      DocketMove d i { d with
        requests := d.requests.insert k r
        lane := lane
        pendingDepositAmount := d.pendingDepositAmount + d.reserves r }
  | settled {ctx args r lane} {amount price total : ℕ}
      (found : d.requests.lookup ctx.request = some r) (pending : r.requestState = .pending)
      (primary : r.assetMintAddress = d.assetMint) (dequeued : d.dequeue r = some lane)
      (reserved : d.reserves r ≤ d.pendingDepositAmount)
      (balance : total ≤ d.totalAssetBalance + d.reserves r) :
      DocketMove d (.approveRequest ctx args) { d with
        requests := d.requests.insert ctx.request
          { r with amount := amount, price := price, requestState := .claimable }
        lane := lane
        totalAssetBalance := total
        pendingDepositAmount := d.pendingDepositAmount - d.reserves r }
  | rejected {authority user ctx args r lane} (found : d.requests.lookup ctx.request = some r)
      (pending : r.requestState = .pending) (dequeued : d.dequeue r = some lane)
      (reserved : d.reserves r ≤ d.pendingDepositAmount) :
      DocketMove d (.rejectRequest authority user ctx args) { d with
        requests := d.requests.erase ctx.request
        lane := lane
        pendingDepositAmount := d.pendingDepositAmount - d.reserves r }
  | canceled {user ctx r} (found : d.requests.lookup ctx.request = some r)
      (pending : r.requestState = .pending) (unqueued : r.queueId r.requestType = none)
      (reserved : d.reserves r ≤ d.pendingDepositAmount) :
      DocketMove d (.cancelRequest user ctx) { d with
        requests := d.requests.erase ctx.request
        pendingDepositAmount := d.pendingDepositAmount - d.reserves r }
  | parked {i k r} (parks : i.parks = some k) (found : d.requests.lookup k = some r)
      (pending : r.requestState = .pending) (queued : (r.queueId r.requestType).isSome)
      (reserved : d.reserves r ≤ d.pendingDepositAmount) :
      DocketMove d i { d with
        requests := d.requests.insert k { r with requestState := .canceled }
        pendingDepositAmount := d.pendingDepositAmount - d.reserves r }
  | skipped {k owner r lane} (found : d.requests.lookup k = some r)
      (canceled : r.requestState = .canceled) (dequeued : d.dequeue r = some lane) :
      DocketMove d (.skipCanceledQueueRequest k owner)
        { d with requests := d.requests.erase k, lane := lane }
  | claimed {ctx r} (found : d.requests.lookup ctx.request = some r)
      (claimable : r.requestState = .claimable) :
      DocketMove d (.claim ctx) { d with requests := d.requests.erase ctx.request }
  | operated {user operator k r} (found : d.requests.lookup k = some r) :
      DocketMove d (.setOperator user operator k) { d with
        requests := d.requests.insert k { r with operator := some operator } }

/-- **The effect of a transaction on the docket.**  Configuration changes lanes and the cap. -/
inductive DocketStep (d : Docket) : Docket → Prop
  | moved {i d'} (move : DocketMove d i d') : DocketStep d d'
  | deposited {amount net : ℕ} (net_le : net ≤ amount)
      (capped : d.depositCap = 0 ∨
        d.totalAssetBalance + d.pendingDepositAmount + amount ≤ d.depositCap) :
      DocketStep d { d with totalAssetBalance := d.totalAssetBalance + net }
  | redeemed {gross : ℕ} :
      DocketStep d { d with totalAssetBalance := d.totalAssetBalance - gross }
  | configured {tranched lane cap} :
      DocketStep d { d with tranched := tranched, lane := lane, depositCap := cap }

end AsyncVault
