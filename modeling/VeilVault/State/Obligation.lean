/-
# VeilVault.State.Obligation — one user's positions: two tables of eight slots.

A transcription of `state/obligation.rs`.  A slot is free when its reserve key is the default
address; it is cleared in place and the first free slot is reused.  The two counters are separate
fields, and some readers iterate over the counted prefix only.

The `&mut self` methods return an `Outcome`, so that what a failing call leaves behind is part of
the model: `borrow` opens its slot before the amount is checked.
-/
import VeilVault.Kit.SlotTable
import VeilVault.State.Basic

namespace VeilVault

open Kit

/-! ## Slots -/

abbrev maxDepositsCountInReserve : Nat := 8
abbrev maxBorrowCountInReserve : Nat := 8

instance neZero_slotCount : NeZero maxDepositsCountInReserve := ⟨by decide⟩

structure ObligationCollateral where
  depositReserve : Pubkey
  /-- In cTokens. -/
  depositedAmount : U64
  /-- Threshold-adjusted USD value times `rateScale`, as of the last refresh. -/
  marketValueSf : U128
  deriving DecidableEq, Repr

namespace ObligationCollateral

instance : Inhabited ObligationCollateral := ⟨⟨default, 0, 0⟩⟩

def init (depositReserve : Pubkey) : ObligationCollateral :=
  { (default : ObligationCollateral) with depositReserve }

def isActive (c : ObligationCollateral) : Bool := c.depositReserve != default

end ObligationCollateral

structure ObligationLiquidity where
  borrowReserve : Pubkey
  /-- Atomic units times `rateScale`. -/
  borrowedAmountSf : U128
  /-- The reserve's index when the debt was last accrued. -/
  cumulativeBorrowRateSf : U128
  /-- USD value times `rateScale`, as of the last refresh. -/
  marketValueSf : U128
  deriving DecidableEq, Repr

namespace ObligationLiquidity

instance : Inhabited ObligationLiquidity := ⟨⟨default, 0, rateScale, 0⟩⟩

def init (borrowReserve : Pubkey) (cumulativeBorrowRateSf : U128) : ObligationLiquidity :=
  { (default : ObligationLiquidity) with borrowReserve, cumulativeBorrowRateSf }

def isActive (b : ObligationLiquidity) : Bool := b.borrowReserve != default

end ObligationLiquidity

/-! ## The obligation -/

structure Obligation where
  lendingMarket : Pubkey
  owner : Pubkey
  lastUpdate : LastUpdate
  deposits : Vector ObligationCollateral maxDepositsCountInReserve
  borrows : Vector ObligationLiquidity maxBorrowCountInReserve
  depositsCount : U8
  borrowsCount : U8
  deriving DecidableEq, Repr

namespace Obligation

instance : Inhabited Obligation :=
  ⟨⟨default, default, default, .replicate _ default, .replicate _ default, 0, 0⟩⟩

def init (owner lendingMarket : Pubkey) : Obligation :=
  { (default : Obligation) with owner, lendingMarket }

/-! ### Slot lookup -/

def findDeposit (o : Obligation) (reserve : Pubkey) : Result (Fin maxDepositsCountInReserve) :=
  okOr (o.deposits.findFinIdx? (·.depositReserve == reserve)) .depositNotFound

def findBorrow (o : Obligation) (reserve : Pubkey) : Result (Fin maxBorrowCountInReserve) :=
  okOr (o.borrows.findFinIdx? (·.borrowReserve == reserve)) .borrowNotFound

def findOrAddDeposit (o : Obligation) (reserve : Pubkey) :
    Result (Fin maxDepositsCountInReserve) :=
  match o.deposits.findFinIdx? (·.depositReserve == reserve) with
  | some slot => .ok slot
  | none => okOr (o.deposits.findFinIdx? (!·.isActive)) .obligationDepositsFull

def findOrAddBorrow (o : Obligation) (reserve : Pubkey) : Result (Fin maxBorrowCountInReserve) :=
  match o.borrows.findFinIdx? (·.borrowReserve == reserve) with
  | some slot => .ok slot
  | none => okOr (o.borrows.findFinIdx? (!·.isActive)) .obligationBorrowsFull

/-! ### In-place methods -/

/-- Write one deposit slot. -/
def setDeposit (o : Obligation) (slot : Fin maxDepositsCountInReserve)
    (c : ObligationCollateral) : Obligation :=
  { o with deposits := o.deposits.set slot c slot.isLt }

/-- Write one borrow slot. -/
def setBorrow (o : Obligation) (slot : Fin maxBorrowCountInReserve)
    (b : ObligationLiquidity) : Obligation :=
  { o with borrows := o.borrows.set slot b slot.isLt }

/-- `if !is_active() { init(reserve); deposits_count += 1 }`, saturating. -/
def openDeposit (o : Obligation) (slot : Fin maxDepositsCountInReserve) (reserve : Pubkey) :
    Obligation :=
  if o.deposits[slot].isActive then o
  else { o.setDeposit slot (.init reserve) with
    depositsCount := saturatingAdd o.depositsCount 1 }

/-- The same for a borrow slot, which also records the reserve's index. -/
def openBorrow (o : Obligation) (slot : Fin maxBorrowCountInReserve) (reserve : Pubkey)
    (cumulativeBorrowRateSf : U128) : Obligation :=
  if o.borrows[slot].isActive then o
  else { o.setBorrow slot (.init reserve cumulativeBorrowRateSf) with
    borrowsCount := saturatingAdd o.borrowsCount 1 }

/-- Write a deposit slot's new amount, and clear the slot when nothing is left. -/
def settleDeposit (o : Obligation) (slot : Fin maxDepositsCountInReserve) (amount : U64) :
    Obligation :=
  if amount = 0 then
    { o.setDeposit slot default with depositsCount := saturatingSub o.depositsCount 1 }
  else o.setDeposit slot { o.deposits[slot] with depositedAmount := amount }

/-- Write a borrow slot's new debt, and clear the slot when less than one atomic unit is left. -/
def settleBorrow (o : Obligation) (slot : Fin maxBorrowCountInReserve) (amountSf : U128) :
    Obligation :=
  if amountSf < rateScale then
    { o.setBorrow slot default with borrowsCount := saturatingSub o.borrowsCount 1 }
  else o.setBorrow slot { o.borrows[slot] with borrowedAmountSf := amountSf }

def deposit (o : Obligation) (reserve : Pubkey) (amount : U64) : Outcome Fault Obligation :=
  .attempt o (require (amount > 0) .invalidAmount) fun _ =>
  .attempt o (o.findOrAddDeposit reserve) fun slot =>
  let o := o.openDeposit slot reserve
  .attempt o (okOr (checkedAdd o.deposits[slot].depositedAmount amount) .mathOverflow)
    fun depositedAmount => (.ok (), o.setDeposit slot { o.deposits[slot] with depositedAmount })

def withdraw (o : Obligation) (reserve : Pubkey) (amount : U64) : Outcome Fault Obligation :=
  .attempt o (require (amount > 0) .invalidAmount) fun _ =>
  .attempt o (o.findDeposit reserve) fun slot =>
  .attempt o (require (amount ≤ o.deposits[slot].depositedAmount) .insufficientCollateral) fun _ =>
  .attempt o (okOr (checkedSub o.deposits[slot].depositedAmount amount) .mathOverflow)
    fun left => (.ok (), o.settleDeposit slot left)

def borrow (o : Obligation) (reserve : Pubkey) (amount : U128) (cumulativeBorrowRateSf : U128) :
    Outcome Fault Obligation :=
  .attempt o (require (amount > 0) .invalidAmount) fun _ =>
  .attempt o (o.findOrAddBorrow reserve) fun slot =>
  -- the slot is open from here on, whatever happens to the amount
  let o := o.openBorrow slot reserve cumulativeBorrowRateSf
  .attempt o (okOr (checkedMul amount rateScale) .mathOverflow) fun amountSf =>
  .attempt o (okOr (checkedAdd o.borrows[slot].borrowedAmountSf amountSf) .mathOverflow)
    fun borrowedAmountSf => (.ok (), o.setBorrow slot { o.borrows[slot] with borrowedAmountSf })

def repay (o : Obligation) (reserve : Pubkey) (amount : U128) : Outcome Fault Obligation :=
  .attempt o (require (amount > 0) .invalidAmount) fun _ =>
  .attempt o (o.findBorrow reserve) fun slot =>
  .attempt o (okOr (checkedMul amount rateScale) .mathOverflow) fun amountSf =>
  .attempt o (require (amountSf ≤ o.borrows[slot].borrowedAmountSf) .invalidAmount) fun _ =>
  .attempt o (okOr (checkedSub o.borrows[slot].borrowedAmountSf amountSf) .mathOverflow)
    fun left => (.ok (), o.settleBorrow slot left)

/-- Grow one slot's debt to the reserve's current index.  The index argument is an array index. -/
def accrueInterest (o : Obligation) (slotIndex : Nat) (currentCumulativeRateSf : U128) :
    Outcome Fault Obligation :=
  if h : slotIndex < maxBorrowCountInReserve then
    let slot : Fin maxBorrowCountInReserve := ⟨slotIndex, h⟩
    let b := o.borrows[slot]
    if b.isActive = false then (.ok (), o)
    else
      .attempt o (require (currentCumulativeRateSf ≥ b.cumulativeBorrowRateSf)
        .borrowRateDecreased) fun _ =>
      if currentCumulativeRateSf = b.cumulativeBorrowRateSf then (.ok (), o)
      else
        .attempt o (okOr (do
            let m ← checkedMul b.borrowedAmountSf currentCumulativeRateSf
            checkedDiv m b.cumulativeBorrowRateSf) .mathOverflow) fun borrowedAmountSf =>
        (.ok (), o.setBorrow slot
          { b with borrowedAmountSf, cumulativeBorrowRateSf := currentCumulativeRateSf })
  else (.error .abort, o)

/-! ### Health -/

/-- `self.borrows[..self.borrows_count as usize]`. -/
def countedBorrows (o : Obligation) : Result (List ObligationLiquidity) :=
  if o.borrowsCount.toNat ≤ maxBorrowCountInReserve then
    .ok (o.borrows.toList.take o.borrowsCount.toNat)
  else .error .abort

/-- `self.deposits[..self.deposits_count as usize]`. -/
def countedDeposits (o : Obligation) : Result (List ObligationCollateral) :=
  if o.depositsCount.toNat ≤ maxDepositsCountInReserve then
    .ok (o.deposits.toList.take o.depositsCount.toNat)
  else .error .abort

/-- The cached values of the active slots among `bs`. -/
def borrowValues (bs : List ObligationLiquidity) : List U128 :=
  (bs.filter (·.isActive)).map (·.marketValueSf)

/-- The cached values of the active slots among `cs`. -/
def depositValues (cs : List ObligationCollateral) : List U128 :=
  (cs.filter (·.isActive)).map (·.marketValueSf)

/-- Deposit value over borrow value, or `none` when the counted borrows are worth nothing. -/
def healthFactor (o : Obligation) : Result (Option U128) := do
  let borrows ← o.countedBorrows
  let borrowValue := saturatingSum (borrowValues borrows)
  if borrowValue = 0 then return none
  let deposits ← o.countedDeposits
  let depositValue := saturatingSum (depositValues deposits)
  return checkedDiv depositValue borrowValue

def isHealthy (o : Obligation) : Result Bool := do
  match ← o.healthFactor with
  | none => return true
  | some hf => return hf ≥ rateScale

end Obligation

end VeilVault
