/-
# VeilVault.Ledger.Liquidate — seizing collateral against repaid debt.

`instructions/liquidate.rs` and the second half of `instructions/private_liquidate.rs` share every
line between the reserve snapshots and the token transfers, except the health gate; `seize` is that
text with the gate as a parameter.  The two reserves may be one account, so they are read from and
written to a map.
-/
import VeilVault.Ledger.Position

namespace VeilVault

open Kit Kit.Outcome

namespace Ledger

/-- `load_mut`, check that the reserve is active, accrue it, and check that it has a price. -/
def accruePriced (clock : Clock) (reserve : Reserve) : Result Reserve := do
  require (reserve.config.isActive) .invalidConfig
  let reserve ← reserve.accrueInterest clock.slot
  require (reserve.liquidity.marketPriceSf > 0) .priceNotValid
  return reserve

/-- cTokens worth `actualRepay` units of debt plus the bonus. -/
def ctokensFor (actualRepay : U64) (repayPriceSf withdrawPriceSf withdrawTotalLiquidity
    withdrawCtokenSupply liqBonusBps : U128) : Result U128 := do
  let repayValueSf ← okOr (checkedMul actualRepay.toU128 repayPriceSf) .mathOverflow
  let bonusFactor ← orAbort (checkedAdd bpsScaler.toU128 liqBonusBps)
  let bonusValueSf ← okOr (do
    let m ← checkedMul repayValueSf bonusFactor
    checkedDiv m bpsScaler.toU128) .mathOverflow
  let underlyingCollateral ← okOr (checkedDiv bonusValueSf withdrawPriceSf) .mathOverflow
  if withdrawCtokenSupply = 0 ∨ withdrawTotalLiquidity = 0 then return underlyingCollateral
  okOr (do
    let m ← checkedMul underlyingCollateral withdrawCtokenSupply
    checkedDiv m withdrawTotalLiquidity) .mathOverflow

/-- What a liquidation did. -/
structure Seizure where
  reserves : Pubkey → Option Reserve
  obligation : Obligation
  actualRepay : U64
  ctokensToSeize : U64

/-- The common body.  `gate` is the health condition on the obligation. -/
def seize (gate : Obligation → Result Unit) (clock : Clock) (repayKey withdrawKey : Pubkey)
    (reserves : Pubkey → Option Reserve) (obligation : Obligation) (repayAmount : U64) :
    Result Seizure := do
  let repayReserve ← load reserves repayKey
  let repayReserve ← accruePriced clock repayReserve
  let reserves := store reserves repayKey repayReserve
  let withdrawReserve ← load reserves withdrawKey
  let withdrawReserve ← accruePriced clock withdrawReserve
  let withdrawTotalLiquidity ← withdrawReserve.liquidity.totalSupply
  let reserves := store reserves withdrawKey withdrawReserve
  require (obligation.lastUpdate.isSlotStale clock.slot = false) .obligationStale
  gate obligation
  let borrowIdx ← obligation.findBorrow repayKey
  let obligation ← (obligation.accrueInterest borrowIdx
    repayReserve.liquidity.cumulativeBorrowRateSf).commit
  let rawDebt := obligation.borrows[borrowIdx].borrowedAmountSf / rateScale
  -- close factor: at most half of the outstanding debt at a time
  let scaledDebt ← orAbort (checkedMul rawDebt maxLiquidationCloseFactorPct)
  let actualRepay := U64.min repayAmount (U128.toU64 (scaledDebt / percentScaler))
  require (actualRepay > 0) .invalidAmount
  let ctokens ← ctokensFor actualRepay repayReserve.liquidity.marketPriceSf
    withdrawReserve.liquidity.marketPriceSf withdrawTotalLiquidity
    withdrawReserve.collateral.mintTotalSupply.toU128
    withdrawReserve.config.liquidationBonusPct.toU128
  let depositIdx ← obligation.findDeposit withdrawKey
  let deposited := obligation.deposits[depositIdx].depositedAmount.toU128
  let ctokensToSeize := U128.toU64 (U128.min ctokens deposited)
  require (ctokensToSeize > 0) .invalidAmount
  let obligation ← (obligation.repay repayKey actualRepay.toU128).commit
  let obligation ← (obligation.withdraw withdrawKey ctokensToSeize).commit
  let repayReserve ← load reserves repayKey
  let repayReserve ← repayReserve.repay actualRepay
  return {
    reserves := store reserves repayKey repayReserve
    obligation
    actualRepay
    ctokensToSeize }

/-- `liquidate`, up to its token transfers. -/
def liquidate (market : LendingMarket) (clock : Clock) (repayKey withdrawKey : Pubkey)
    (reserves : Pubkey → Option Reserve) (obligation : Obligation) (repayAmount : U64) :
    Result Seizure := do
  require (market.isPaused = false) .invalidConfig
  require (repayAmount > 0) .invalidAmount
  seize Obligation.liquidationGate clock repayKey withdrawKey reserves obligation repayAmount

/-- `execute_private_liquidation`, up to its token transfers.  The flag replaces the health gate;
the pause is checked by an account constraint and again by the handler. -/
def executePrivateLiquidation (market : LendingMarket) (isLiquidatable : Bool) (clock : Clock)
    (repayKey withdrawKey : Pubkey) (reserves : Pubkey → Option Reserve) (obligation : Obligation)
    (repayAmount : U64) : Result Seizure := do
  require (market.isPaused = false) .invalidConfig
  require (isLiquidatable) .obligationHealthy
  require (repayAmount > 0) .invalidAmount
  require (market.isPaused = false) .invalidConfig
  seize (fun _ => .ok ()) clock repayKey withdrawKey reserves obligation repayAmount

end Ledger

end VeilVault
