import VeilVault.Ledger.Decimals
import VeilVault.Ledger.Edge
import VeilVault.Ledger.LoanToValue
import VeilVault.Ledger.Prices
import VeilVault.Ledger.Refreshing
import VeilVault.Ledger.Serviceable
import VeilVault.Ledger.Simulation
import VeilVault.Ledger.Standing
import VeilVault.Ledger.Undoing
import VeilVault.Ledger.Withdrawable
import VeilVault.Obligation.Health
import VeilVault.Obligation.Paths
import VeilVault.Obligation.Refinement
import VeilVault.Private.Coverage
import VeilVault.Private.Removals
import VeilVault.Reserve.ExchangeRate
import VeilVault.Reserve.Partition
import VeilVault.Reserve.RateBand
import VeilVault.Reserve.RoundTrip
import VeilVault.Reserve.Splitting
import VeilVault.Reserve.Terms
import VeilVault.World.Accrual
import VeilVault.World.Coherence
import VeilVault.World.Donations
import VeilVault.World.FlashLoan
import VeilVault.World.FreshChecks
import VeilVault.World.PriceReadings
import VeilVault.World.Governance
import VeilVault.World.Holders
import VeilVault.World.Indices
import VeilVault.World.Liquidation
import VeilVault.World.Mirror
import VeilVault.World.OneAsset
import VeilVault.World.Payouts
import VeilVault.World.Positions
import VeilVault.World.Privacy
import VeilVault.World.Repayable
import VeilVault.World.Pools
import VeilVault.World.Interleaving
import VeilVault.World.Simulation
import VeilVault.World.Sovereignty
import VeilVault.World.Switches
import VeilVault.World.Verdicts
