import AsyncVault.Lib.Checked
import AsyncVault.Lib.KeyedStore
import AsyncVault.Lib.Machine
import AsyncVault.Lib.TokenLedger
import AsyncVault.Lib.FixedPoint
import AsyncVault.Lib.OrderBook
import AsyncVault.Lib.OrderBookLaws
import AsyncVault.Lib.TicketLane
import AsyncVault.Lib.RateLimit
import AsyncVault.Lib.Postings
import AsyncVault.Lib.Bytes
import AsyncVault.Lib.Sha256
import AsyncVault.Lib.MerkleTree
import AsyncVault.Types
import AsyncVault.Fee
import AsyncVault.VaultRules
import AsyncVault.Lib.Tranching
import AsyncVault.Waterfall
import AsyncVault.State
import AsyncVault.ShareMint
import AsyncVault.Requests
import AsyncVault.Approval
import AsyncVault.Instant
import AsyncVault.Nav
import AsyncVault.Config
import AsyncVault.VaultUpdate
import AsyncVault.Program
import AsyncVault.Terms
import AsyncVault.BookView
import AsyncVault.Parts
import AsyncVault.RequestEffects
import AsyncVault.SettlementEffects
import AsyncVault.NavEffects
import AsyncVault.ConfigSteps
import AsyncVault.ConfigEffects
import AsyncVault.Refinement
import AsyncVault.Scenario
import AsyncVault.Escrow
import AsyncVault.SupplyCache
import AsyncVault.JuniorFloor
import AsyncVault.Solvency
import AsyncVault.Redemption
import AsyncVault.Lifecycle
import AsyncVault.TrancheValue
import AsyncVault.Repost
import AsyncVault.AssignedFloor
import AsyncVault.PerformanceFee
import AsyncVault.Venue
import AsyncVault.StrategyPolicy
import AsyncVault.StrategyLeaf
import AsyncVault.PolicyTree
import AsyncVault.PolicyTreeScript
import AsyncVault.PolicyAuthorization
import AsyncVault.Docket
import AsyncVault.Operations
import AsyncVault.ManagedSteps
import AsyncVault.Tallies
import AsyncVault.VenueEffects
import AsyncVault.Custody
import AsyncVault.Exits
import AsyncVault.Reserve
import AsyncVault.ManagedScenario
import AsyncVault.FeeHistory
import AsyncVault.DepositCap
import AsyncVault.PolicyVersions
import AsyncVault.Timelock
import AsyncVault.Lanes
import AsyncVault.NavHistory
import AsyncVault.ImpliedApy
import AsyncVault.FreshNav
import AsyncVault.Pauses
import AsyncVault.RollingLimits
import AsyncVault.InstantAgreement
import AsyncVault.Conversion
import AsyncVault.NavGuard
import AsyncVault.EpochModel
import AsyncVault.FeeConservation
import AsyncVault.Dilution
import AsyncVault.WaterfallLaw
import AsyncVault.UpdateValidation
import AsyncVault.Positions
import AsyncVault.SecondaryAssets
import AsyncVault.ShareSupply
import AsyncVault.Removal
import AsyncVault.ExtensionHistory
import AsyncVault.AccountLayout
import AsyncVault.WebReader
import AsyncVault.Authorization
import AsyncVault.Collection
import AsyncVault.WindDown
import AsyncVault.Freeze
