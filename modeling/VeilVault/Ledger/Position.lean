/-
# VeilVault.Ledger.Position — what the instructions do to one reserve and one obligation.

The ledger part of an instruction is its handler without the account plumbing and the token
transfer: the checks and updates on the market, the reserve and the obligation it was given.  The
public and the private borrow are written out separately, as they are in `instructions/borrow.rs`
and `instructions/private_borrow.rs`; repayment and the two collateral instructions follow.
-/
import VeilVault.State.Market
import VeilVault.State.Obligation
import VeilVault.State.Reserve

namespace VeilVault

open Kit Kit.Outcome

namespace Obligation

/-! ## Health gates -/

/-- The check written out in `borrow` and `private_borrow`: cached collateral value against cached
debt value plus the value of the new borrow.  The two sums are unchecked `.sum()`s. -/
def inlineHealthCheck (o : Obligation) (amount : U64) (reservePriceSf : U128) : Result Unit := do
  let deposits ← o.countedDeposits
  let collateralValueSf ← orAbort (checkedSum (depositValues deposits))
  let borrows ← o.countedBorrows
  let existingBorrowValueSf ← orAbort (checkedSum (borrowValues borrows))
  let newBorrowValueSf ← okOr (checkedMul amount.toU128 reservePriceSf) .mathOverflow
  let totalBorrowValueSf ←
    okOr (checkedAdd existingBorrowValueSf newBorrowValueSf) .mathOverflow
  require (collateralValueSf ≥ totalBorrowValueSf) .unhealthyObligation

/-- `withdraw_collateral`: the position must still be healthy, or free of debt. -/
def withdrawHealthCheck (o : Obligation) : Result Unit := do
  match ← o.healthFactor with
  | none => return ()
  | some hf => require (hf ≥ rateScale) .unhealthyObligation

/-- `liquidate`: only an unhealthy position can be liquidated. -/
def liquidationGate (o : Obligation) : Result Unit := do
  let healthy ← o.isHealthy
  require (healthy = false) .obligationHealthy

/-- `if let Ok(slot_idx) = find_borrow(key) { accrue_interest(slot_idx, rate)? }`. -/
def accrueExisting (o : Obligation) (reserve : Pubkey) (cumulativeBorrowRateSf : U128) :
    Result Obligation :=
  match o.findBorrow reserve with
  | .ok slot => (o.accrueInterest slot cumulativeBorrowRateSf).commit
  | .error _ => .ok o

end Obligation

namespace Ledger

/-! ## Liquidity -/

/-- `deposit`, up to its token calls: the reserve after it, and the cTokens to mint. -/
def deposit (market : LendingMarket) (clock : Clock) (reserve : Reserve) (amount : U64) :
    Result (Reserve × U64) := do
  require (market.isPaused = false) .invalidConfig
  require (amount > 0) .invalidAmount
  require (reserve.config.isActive) .invalidConfig
  let reserve ← reserve.accrueInterest clock.slot
  reserve.depositLiquidity amount

/-- `withdraw`, up to its token calls: the reserve after it, and the liquidity to pay out. -/
def withdraw (market : LendingMarket) (clock : Clock) (reserve : Reserve)
    (collateralAmount : U64) : Result (Reserve × U64) := do
  require (market.isPaused = false) .invalidConfig
  require (collateralAmount > 0) .invalidAmount
  require (reserve.config.isActive) .invalidConfig
  let reserve ← reserve.accrueInterest clock.slot
  reserve.redeemCollateral collateralAmount

/-! ## Borrowing -/

/-- `borrow`, up to its token transfer. -/
def borrow (market : LendingMarket) (clock : Clock) (key : Pubkey) (reserve : Reserve)
    (obligation : Obligation) (amount : U64) : Result (Reserve × Obligation) := do
  require (market.isPaused = false) .invalidConfig
  require (amount > 0) .invalidAmount
  require (reserve.config.isActive) .invalidConfig
  require (reserve.liquidity.marketPriceSf > 0) .priceNotValid
  let reserve ← reserve.accrueInterest clock.slot
  let reserve ← reserve.borrow amount
  require (obligation.lastUpdate.isSlotStale clock.slot = false) .obligationStale
  let obligation ← obligation.accrueExisting key reserve.liquidity.cumulativeBorrowRateSf
  let obligation ←
    (obligation.borrow key amount.toU128 reserve.liquidity.cumulativeBorrowRateSf).commit
  obligation.inlineHealthCheck amount reserve.liquidity.marketPriceSf
  return (reserve, obligation)

/-- `private_borrow`, up to its token transfer.  The price and staleness conditions are skipped
when the reserve has no oracle. -/
def privateBorrow (market : LendingMarket) (isInitialized : Bool) (clock : Clock) (key : Pubkey)
    (reserve : Reserve) (obligation : Obligation) (amount : U64) :
    Result (Reserve × Obligation) := do
  require (amount > 0) .invalidAmount
  require (isInitialized) .privateObligationNotInitialized
  require (market.isPaused = false) .invalidConfig
  let oracleIsSet := reserve.config.pythOracle ≠ default
  require (reserve.config.isActive) .invalidConfig
  require (¬ oracleIsSet ∨ reserve.liquidity.marketPriceSf > 0) .priceNotValid
  let reserve ← reserve.accrueInterest clock.slot
  let reserve ← reserve.borrow amount
  require (¬ oracleIsSet ∨ obligation.lastUpdate.isSlotStale clock.slot = false) .obligationStale
  let obligation ← obligation.accrueExisting key reserve.liquidity.cumulativeBorrowRateSf
  let obligation ←
    (obligation.borrow key amount.toU128 reserve.liquidity.cumulativeBorrowRateSf).commit
  obligation.inlineHealthCheck amount reserve.liquidity.marketPriceSf
  return (reserve, obligation)

/-! ## Repayment -/

/-- `repay`, up to its token transfer.  There is no pause check. -/
def repay (clock : Clock) (key : Pubkey) (reserve : Reserve) (obligation : Obligation)
    (amount : U64) : Result (Reserve × Obligation) := do
  require (amount > 0) .invalidAmount
  require (reserve.config.isActive) .invalidConfig
  let reserve ← reserve.accrueInterest clock.slot
  let rate := reserve.liquidity.cumulativeBorrowRateSf
  let reserve ← reserve.repay amount
  let slot ← obligation.findBorrow key
  let obligation ← (obligation.accrueInterest slot rate).commit
  let obligation ← (obligation.repay key amount.toU128).commit
  return (reserve, obligation)

/-! ## Collateral -/

/-- `deposit_collateral`, up to its token transfer. -/
def depositCollateral (market : LendingMarket) (key : Pubkey) (reserve : Reserve)
    (obligation : Obligation) (collateralAmount : U64) : Result Obligation := do
  require (market.isPaused = false) .invalidConfig
  require (collateralAmount > 0) .invalidAmount
  require (reserve.config.isActive) .invalidConfig
  (obligation.deposit key collateralAmount).commit

/-- `private_deposit_collateral`, up to its token transfer. -/
def privateDepositCollateral (market : LendingMarket) (isInitialized : Bool) (key : Pubkey)
    (reserve : Reserve) (obligation : Obligation) (collateralAmount : U64) :
    Result Obligation := do
  require (collateralAmount > 0) .invalidAmount
  require (isInitialized) .privateObligationNotInitialized
  require (market.isPaused = false) .invalidConfig
  require (reserve.config.isActive) .invalidConfig
  (obligation.deposit key collateralAmount).commit

/-- `withdraw_collateral`, up to its token transfer.  The cached value of the slot shrinks in
proportion before the health check. -/
def withdrawCollateral (market : LendingMarket) (clock : Clock) (key : Pubkey)
    (obligation : Obligation) (collateralAmount : U64) : Result Obligation := do
  require (market.isPaused = false) .invalidConfig
  require (collateralAmount > 0) .invalidAmount
  require (obligation.lastUpdate.isSlotStale clock.slot = false) .obligationStale
  let slot ← obligation.findDeposit key
  let oldDeposited : U128 := obligation.deposits[slot].depositedAmount.toU128
  let newDeposited ←
    okOr (checkedSub oldDeposited collateralAmount.toU128) .insufficientCollateral
  let marketValueSf ← okOr (do
    let m ← checkedMul obligation.deposits[slot].marketValueSf newDeposited
    checkedDiv m (U128.max oldDeposited 1)) .mathOverflow
  let obligation := obligation.setDeposit slot { obligation.deposits[slot] with marketValueSf }
  let obligation ← (obligation.withdraw key collateralAmount).commit
  obligation.withdrawHealthCheck
  return obligation

end Ledger

end VeilVault
