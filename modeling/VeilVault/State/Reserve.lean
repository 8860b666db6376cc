/-
# VeilVault.State.Reserve — one asset's pool: liquidity, rate curve, cToken supply.

A transcription of `state/reserve.rs`.  Amounts are whole atomic units; only the borrow index and
the price carry the `rateScale` factor (the field `borrowedAmountSf` does not, whatever its suffix
says).  Methods that take `&mut self` return the new record; their callers discard it on failure,
because every one of them runs inside a transaction.
-/
import VeilVault.State.Basic

namespace VeilVault

open Kit

/-! ## Configuration -/

structure ReserveConfig where
  depositLimit : U64
  borrowLimit : U64
  minBorrowRateBps : U16
  optimalBorrowRateBps : U16
  maxBorrowRateBps : U16
  optimalUtilizationBps : U16
  liquidationBonusPct : U16
  protocolFee : U16
  status : U8
  loanToValuePct : U8
  liquidationThresholdPct : U8
  pythOracle : Pubkey
  deriving DecidableEq, Repr

structure InitReserveConfigParams where
  status : U8
  minBorrowRateBps : U16
  optimalBorrowRateBps : U16
  maxBorrowRateBps : U16
  optimalUtilizationBps : U16
  loanToValuePct : U8
  liquidationThresholdPct : U8
  liquidationBonusPct : U16
  depositLimit : U64
  borrowLimit : U64
  protocolFee : U16
  pythOracle : Pubkey
  deriving DecidableEq, Repr

namespace ReserveConfig

def validate (c : ReserveConfig) : Result Unit := do
  require (c.loanToValuePct < c.liquidationThresholdPct) .invalidConfig
  require (c.liquidationThresholdPct ≤ maxLiquidationThresholdPct) .invalidConfig
  require (c.minBorrowRateBps ≤ c.optimalBorrowRateBps ∧
    c.optimalBorrowRateBps ≤ c.maxBorrowRateBps) .invalidConfig
  require (c.optimalUtilizationBps ≤ maxUtilizationBps) .invalidConfig
  require (c.protocolFee ≤ maxProtocolFeeBps) .invalidConfig

/-- Overwrite every field, then check the result; a rejected configuration fails the transaction. -/
def init (params : InitReserveConfigParams) : Result ReserveConfig := do
  let c : ReserveConfig :=
    { depositLimit := params.depositLimit
      borrowLimit := params.borrowLimit
      minBorrowRateBps := params.minBorrowRateBps
      optimalBorrowRateBps := params.optimalBorrowRateBps
      maxBorrowRateBps := params.maxBorrowRateBps
      optimalUtilizationBps := params.optimalUtilizationBps
      liquidationBonusPct := params.liquidationBonusPct
      protocolFee := params.protocolFee
      status := params.status
      loanToValuePct := params.loanToValuePct
      liquidationThresholdPct := params.liquidationThresholdPct
      pythOracle := params.pythOracle }
  c.validate
  return c

/-- Replace the configuration by one that passes the check. -/
def update (_ newConfig : ReserveConfig) : Result ReserveConfig := do
  newConfig.validate
  return newConfig

def isActive (c : ReserveConfig) : Bool := c.status == 0

def isFrozen (c : ReserveConfig) : Bool := c.status == 1

/-- The kinked rate curve, in basis points. -/
def borrowRate (c : ReserveConfig) (utilizationBps : U16) : Result U16 := do
  let util := utilizationBps.toU64
  let optimalUtil := c.optimalUtilizationBps.toU64
  let rate ←
    if util ≤ optimalUtil then do
      let min := c.minBorrowRateBps.toU64
      let optimal := c.optimalBorrowRateBps.toU64
      let slopeNumerator ← okOr (checkedMul util (saturatingSub optimal min)) .mathOverflow
      let slope ← if optimalUtil = 0 then pure 0
        else okOr (checkedDiv slopeNumerator optimalUtil) .mathOverflow
      okOr (checkedAdd min slope) .mathOverflow
    else do
      let optimal := c.optimalBorrowRateBps.toU64
      let max := c.maxBorrowRateBps.toU64
      let excessUtil := saturatingSub util optimalUtil
      let remainingUtil := saturatingSub bpsScaler optimalUtil
      let slopeNumerator ← okOr (checkedMul excessUtil (saturatingSub max optimal)) .mathOverflow
      let slope ← if remainingUtil = 0 then pure 0
        else okOr (checkedDiv slopeNumerator remainingUtil) .mathOverflow
      okOr (checkedAdd optimal slope) .mathOverflow
  return rate.setWidth 16

end ReserveConfig

/-! ## Liquidity -/

structure ReserveLiquidity where
  borrowedAmountSf : U128
  cumulativeBorrowRateSf : U128
  accumulatedProtocolFees : U128
  /-- USD price of the asset, times `rateScale`. -/
  marketPriceSf : U128
  mint : Pubkey
  supplyVault : Pubkey
  feeVault : Pubkey
  availableAmount : U64
  priceLastUpdatedTs : Int64
  deriving DecidableEq, Repr

namespace ReserveLiquidity

def init (mint supplyVault feeVault : Pubkey) : ReserveLiquidity where
  borrowedAmountSf := 0
  cumulativeBorrowRateSf := rateScale
  accumulatedProtocolFees := 0
  marketPriceSf := 0
  mint := mint
  supplyVault := supplyVault
  feeVault := feeVault
  availableAmount := 0
  priceLastUpdatedTs := 0

def deposit (l : ReserveLiquidity) (amount : U64) : Result ReserveLiquidity := do
  let availableAmount ← okOr (checkedAdd l.availableAmount amount) .mathOverflow
  return { l with availableAmount }

def borrow (l : ReserveLiquidity) (amount : U64) : Result ReserveLiquidity := do
  require (l.availableAmount ≥ amount) .insufficientLiquidity
  let availableAmount ← okOr (checkedSub l.availableAmount amount) .mathOverflow
  let borrowedAmountSf ← okOr (checkedAdd l.borrowedAmountSf amount.toU128) .mathOverflow
  return { l with availableAmount, borrowedAmountSf }

def repay (l : ReserveLiquidity) (amount : U64) : Result ReserveLiquidity := do
  let borrowedAmountSf ← okOr (checkedSub l.borrowedAmountSf amount.toU128) .mathOverflow
  let availableAmount ← okOr (checkedAdd l.availableAmount amount) .mathOverflow
  return { l with borrowedAmountSf, availableAmount }

def withdraw (l : ReserveLiquidity) (amount : U64) : Result ReserveLiquidity := do
  require (l.availableAmount ≥ amount) .insufficientLiquidity
  let availableAmount ← okOr (checkedSub l.availableAmount amount) .mathOverflow
  return { l with availableAmount }

/-- Interest over `slotElapsed` slots at `borrowRate` bps a year.  The debt grows by a whole number
of atomic units, the index by a fraction of `rateScale`: both are floors of the same product. -/
def accuredInterest (l : ReserveLiquidity) (borrowRate slotElapsed protocolFee : U64) :
    Result ReserveLiquidity := do
  require (slotElapsed > 0) .zeroSlotsElapsed
  require (borrowRate > 0) .borrowRateZeroFound
  let rate ← okOr (do
    let m ← checkedMul borrowRate.toU128 slotElapsed.toU128
    let m ← checkedMul m rateScale
    let m ← checkedDiv m slotsPerYear.toU128
    checkedDiv m bpsScaler.toU128) .mathOverflow
  let debtAccured ← okOr (do
    let m ← checkedMul rate l.borrowedAmountSf
    checkedDiv m rateScale) .mathOverflow
  let borrowedAmountSf ← okOr (checkedAdd l.borrowedAmountSf debtAccured) .mathOverflow
  let fee ← okOr (do
    let f ← checkedMul debtAccured protocolFee.toU128
    checkedDiv f bpsScaler.toU128) .mathOverflow
  let accumulatedProtocolFees ← okOr (checkedAdd l.accumulatedProtocolFees fee) .mathOverflow
  let rateAccured ← okOr (do
    let m ← checkedMul rate l.cumulativeBorrowRateSf
    checkedDiv m rateScale) .mathOverflow
  let cumulativeBorrowRateSf ← okOr (checkedAdd l.cumulativeBorrowRateSf rateAccured) .mathOverflow
  return { l with borrowedAmountSf, accumulatedProtocolFees, cumulativeBorrowRateSf }

def totalSupply (l : ReserveLiquidity) : Result U128 :=
  okOr (do
    let sum ← checkedAdd l.availableAmount.toU128 l.borrowedAmountSf
    checkedSub sum l.accumulatedProtocolFees) .mathOverflow

/-- `total_supply().unwrap_or(0)`. -/
def totalSupplyOrZero (l : ReserveLiquidity) : U128 := l.totalSupply.toOption.getD 0

/-- Borrowed over total, in percent.  The product is an unchecked `*`. -/
def utilizationRate (l : ReserveLiquidity) : Result U128 := do
  let total := l.totalSupplyOrZero
  if total = 0 then return 0
  let scaled ← orAbort (checkedMul l.borrowedAmountSf percentScaler)
  okOr (checkedDiv scaled total) .mathOverflow

end ReserveLiquidity

/-! ## cTokens -/

structure CollateralExchangeRate where
  collateralSupply : U128
  totalLiquidity : U128
  deriving DecidableEq, Repr

namespace CollateralExchangeRate

def collateralToLiquidity (x : CollateralExchangeRate) (collateralAmount : U64) : Result U64 := do
  let result ← okOr (do
    let n ← checkedMul collateralAmount.toU128 x.totalLiquidity
    checkedDiv n x.collateralSupply) .mathOverflow
  return U128.toU64 result

def liquidityToCollateral (x : CollateralExchangeRate) (liquidityAmount : U64) : Result U64 := do
  let result ← okOr (do
    let n ← checkedMul liquidityAmount.toU128 x.collateralSupply
    checkedDiv n x.totalLiquidity) .mathOverflow
  return U128.toU64 result

end CollateralExchangeRate

structure ReserveCollateral where
  mintPda : Pubkey
  mintTotalSupply : U64
  supplyVaultPda : Pubkey
  deriving DecidableEq, Repr

namespace ReserveCollateral

def init (mintPda supplyVaultPda : Pubkey) : ReserveCollateral :=
  { mintPda, mintTotalSupply := 0, supplyVaultPda }

def mint (c : ReserveCollateral) (collateralAmount : U64) : Result ReserveCollateral := do
  let mintTotalSupply ← okOr (checkedAdd c.mintTotalSupply collateralAmount) .mathOverflow
  return { c with mintTotalSupply }

def burn (c : ReserveCollateral) (collateralAmount : U64) : Result ReserveCollateral := do
  require (c.mintTotalSupply ≥ collateralAmount) .insufficientCollateral
  let mintTotalSupply ← okOr (checkedSub c.mintTotalSupply collateralAmount) .mathOverflow
  return { c with mintTotalSupply }

/-- One to one while there is nothing to divide by. -/
def exchangeRate (c : ReserveCollateral) (totalLiquidity : U128) : CollateralExchangeRate :=
  if c.mintTotalSupply = 0 ∨ totalLiquidity = 0 then
    { collateralSupply := 1, totalLiquidity := 1 }
  else { collateralSupply := c.mintTotalSupply.toU128, totalLiquidity }

end ReserveCollateral

/-! ## The reserve -/

structure Reserve where
  liquidity : ReserveLiquidity
  config : ReserveConfig
  collateral : ReserveCollateral
  version : U64
  lastUpdateSlot : U64
  lendingMarket : Pubkey
  deriving DecidableEq, Repr

namespace Reserve

def collateralExchangeRate (r : Reserve) : CollateralExchangeRate :=
  r.collateral.exchangeRate r.liquidity.totalSupplyOrZero

def utilizationRate (r : Reserve) : Result U128 := r.liquidity.utilizationRate

/-- The percentage is scaled to basis points by an unchecked `*` and cut to sixteen bits. -/
def currentBorrowRate (r : Reserve) : Result U16 := do
  let utilization ← r.liquidity.utilizationRate
  let utilizationBps ← orAbort (checkedMul utilization 100)
  r.config.borrowRate (utilizationBps.setWidth 16)

def depositLimitCrossed (r : Reserve) : Bool :=
  r.liquidity.totalSupplyOrZero ≥ r.config.depositLimit.toU128

def borrowLimitCrossed (r : Reserve) : Bool :=
  r.liquidity.borrowedAmountSf ≥ r.config.borrowLimit.toU128

def depositLiquidity (r : Reserve) (amount : U64) : Result (Reserve × U64) := do
  let total ← r.liquidity.totalSupply
  require (saturatingAdd total amount.toU128 ≤ r.config.depositLimit.toU128) .depositLimitExceeded
  let collateralAmount ← r.collateralExchangeRate.liquidityToCollateral amount
  let liquidity ← r.liquidity.deposit amount
  let collateral ← r.collateral.mint collateralAmount
  return ({ r with liquidity, collateral }, collateralAmount)

def redeemCollateral (r : Reserve) (collateralAmount : U64) : Result (Reserve × U64) := do
  let liquidityAmount ← r.collateralExchangeRate.collateralToLiquidity collateralAmount
  let collateral ← r.collateral.burn collateralAmount
  let liquidity ← r.liquidity.withdraw liquidityAmount
  return ({ r with liquidity, collateral }, liquidityAmount)

def borrow (r : Reserve) (amount : U64) : Result Reserve := do
  require (r.borrowLimitCrossed = false) .borrowLimitExceeded
  let liquidity ← r.liquidity.borrow amount
  return { r with liquidity }

def repay (r : Reserve) (amount : U64) : Result Reserve := do
  let liquidity ← r.liquidity.repay amount
  return { r with liquidity }

/-- Bring the reserve to `currentSlot`; nothing happens when no slot has passed. -/
def accrueInterest (r : Reserve) (currentSlot : U64) : Result Reserve := do
  let slotsElapsed := saturatingSub currentSlot r.lastUpdateSlot
  if slotsElapsed = 0 then return r
  let borrowRate ← r.currentBorrowRate
  let liquidity ←
    if borrowRate > 0 then
      r.liquidity.accuredInterest borrowRate.toU64 slotsElapsed r.config.protocolFee.toU64
    else pure r.liquidity
  return { r with liquidity, lastUpdateSlot := currentSlot }

/-- `update_reserve_config`: the new configuration replaces the old one, and nothing else moves. -/
def updateConfig (r : Reserve) (newConfig : InitReserveConfigParams) : Result Reserve := do
  let config ← ReserveConfig.init newConfig
  return { r with config }

/-- The reserve `add_reserve` writes. -/
def create (slot : U64) (market key mint : Pubkey) (params : InitReserveConfigParams) :
    Result Reserve := do
  let config ← ReserveConfig.init params
  return {
    liquidity := ReserveLiquidity.init mint (.liquidityVault key) (.feeVault key)
    config
    collateral := ReserveCollateral.init (.collateralMint key) (.collateralSupply key)
    version := 1
    lastUpdateSlot := slot
    lendingMarket := market }

end Reserve

end VeilVault
