/-
# VeilVault.Ledger.Refresh — prices and cached values.

`utils/prices.rs`, `instructions/refresh_reserve.rs` and `instructions/refresh_obligation.rs`.  A
price account is what deserialisation makes of it, `none` when it is not a price update at all.
`refresh_obligation` walks the counted prefixes and looks every reserve up among the accounts it
was passed; a reserve without a price is skipped and keeps the slot's old value.
-/
import VeilVault.State.Obligation
import VeilVault.State.Reserve

namespace VeilVault

open Kit Kit.Outcome

/-! ## Prices -/

/-- A Pyth price update, as far as it is read. -/
structure PriceUpdate where
  /-- The verification level is `Full`. -/
  fullyVerified : Bool
  price : Int64
  conf : U64
  exponent : Int32
  publishTime : Int64
  deriving DecidableEq, Repr

/-- At most two percent of the price. -/
def confidenceFactor : U64 := 50

/-- `10u128.pow(n)`; an overflow panics. -/
def pow10 (n : Nat) : Option U128 :=
  if h : 10 ^ n < 2 ^ 128 then some (BitVec.ofNatLT (10 ^ n) h) else none

/-- The USD price times `rateScale`, with its publication time. -/
def getPythPrice (priceUpdate : Option PriceUpdate) (maxAgeSecs currentTimestamp : Int64) :
    Result (U128 × Int64) := do
  let u ← okOr priceUpdate .priceNotValid
  require (u.fullyVerified) .priceNotValid
  require (saturatingSubI64 currentTimestamp u.publishTime ≤ maxAgeSecs) .priceStale
  require (u.price > 0) .priceNotValid
  let price : U64 := u.price.toBitVec
  require (saturatingMul u.conf confidenceFactor ≤ price) .priceConfidenceTooWide
  let expAbs := u.exponent.toInt.natAbs
  let scaled ← okOr (checkedMul price.toU128 rateScale) .mathOverflow
  let factor ← orAbort (pow10 expAbs)
  let priceSf ←
    if u.exponent < 0 then okOr (checkedDiv scaled factor) .mathOverflow
    else okOr (checkedMul scaled factor) .mathOverflow
  return (priceSf, u.publishTime)

namespace Ledger

/-- `refresh_reserve` on the reserve and the price account it was given. -/
def refreshReserve (clock : Clock) (reserve : Reserve) (priceKey : Pubkey)
    (priceUpdate : Option PriceUpdate) : Result Reserve := do
  require (priceKey = reserve.config.pythOracle) .invalidConfig
  let reserve ← reserve.accrueInterest clock.slot
  let (priceSf, publishTime) ← getPythPrice priceUpdate maxAgeSeconds clock.unixTimestamp
  return { reserve with
    liquidity := { reserve.liquidity with
      marketPriceSf := priceSf
      priceLastUpdatedTs := publishTime } }

/-! ## Obligations -/

/-- What `refresh_obligation` reads of a reserve account. -/
structure ReserveFields where
  priceSf : U128
  totalLiquidity : U128
  ctokenSupply : U128
  liqThresholdPct : U8
  cumulativeRateSf : U128

/-- `read_reserve_fields`: an account that does not hold a reserve is an invalid configuration. -/
def readReserveFields (reserve : Option Reserve) : Result ReserveFields := do
  let r ← okOr reserve .invalidConfig
  let totalLiquidity ← r.liquidity.totalSupply
  return {
    priceSf := r.liquidity.marketPriceSf
    totalLiquidity
    ctokenSupply := r.collateral.mintTotalSupply.toU128
    liqThresholdPct := r.config.liquidationThresholdPct
    cumulativeRateSf := r.liquidity.cumulativeBorrowRateSf }

variable (reserves : Pubkey → Option Reserve) (accounts : List Pubkey)

/-- The body of the borrow loop at one slot. -/
def priceBorrowSlot (obligation : Obligation) (slot : Fin maxBorrowCountInReserve) :
    Result Obligation := do
  let b := obligation.borrows[slot]
  if b.isActive = false then return obligation
  require (b.borrowReserve ∈ accounts) .borrowNotFound
  let fields ← readReserveFields (reserves b.borrowReserve)
  if fields.priceSf = 0 then return obligation
  let obligation ← (obligation.accrueInterest slot fields.cumulativeRateSf).commit
  let rawAmount := obligation.borrows[slot].borrowedAmountSf / rateScale
  let marketValueSf ← okOr (checkedMul rawAmount fields.priceSf) .mathOverflow
  return obligation.setBorrow slot { obligation.borrows[slot] with marketValueSf }

/-- cTokens to underlying at the exchange rate; nothing while no cToken exists. -/
def underlyingOf (ctokenAmount totalLiquidity ctokenSupply : U128) : Result U128 :=
  if ctokenSupply = 0 then .ok 0
  else okOr (do
    let m ← checkedMul ctokenAmount totalLiquidity
    checkedDiv m ctokenSupply) .mathOverflow

/-- The body of the deposit loop at one slot: underlying, priced, cut to the threshold. -/
def priceDepositSlot (obligation : Obligation) (slot : Fin maxDepositsCountInReserve) :
    Result Obligation := do
  let c := obligation.deposits[slot]
  if c.isActive = false then return obligation
  require (c.depositReserve ∈ accounts) .depositNotFound
  let fields ← readReserveFields (reserves c.depositReserve)
  if fields.priceSf = 0 then return obligation
  let underlying ←
    underlyingOf c.depositedAmount.toU128 fields.totalLiquidity fields.ctokenSupply
  let marketValueSf ← okOr (do
    let m ← checkedMul underlying fields.priceSf
    let m ← checkedMul m fields.liqThresholdPct.toU128
    checkedDiv m percentScaler) .mathOverflow
  return obligation.setDeposit slot { obligation.deposits[slot] with marketValueSf }

/-- One iteration of the borrow loop; an index past the array panics. -/
def priceBorrow (obligation : Obligation) (i : Nat) : Result Obligation :=
  if h : i < maxBorrowCountInReserve then priceBorrowSlot reserves accounts obligation ⟨i, h⟩
  else .error .abort

/-- One iteration of the deposit loop. -/
def priceDeposit (obligation : Obligation) (i : Nat) : Result Obligation :=
  if h : i < maxDepositsCountInReserve then priceDepositSlot reserves accounts obligation ⟨i, h⟩
  else .error .abort

/-- `refresh_obligation`, given the reserves and the keys of the remaining accounts. -/
def refreshObligation (clock : Clock) (obligation : Obligation) : Result Obligation := do
  let obligation ← (List.range obligation.borrowsCount.toNat).foldlM
    (priceBorrow reserves accounts) obligation
  let obligation ← (List.range obligation.depositsCount.toNat).foldlM
    (priceDeposit reserves accounts) obligation
  return { obligation with
    lastUpdate := obligation.lastUpdate.update clock.slot clock.unixTimestamp }

end Ledger

end VeilVault
