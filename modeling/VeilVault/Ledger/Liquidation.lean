/-
# VeilVault.Ledger.Liquidation — the books of a liquidation.

`liquidate` and `execute_private_liquidation` write out the same four divisions, two caps and two
pairs of updates.  This file says what all of it amounts to: what was paid and what was taken, to
the unit and for both gates, and that nothing else moved.
-/
import VeilVault.Kit.Exchange
import VeilVault.Ledger.Coherence

namespace VeilVault

open Kit Kit.Outcome

/-! ## The exchange rate -/

namespace Reserve

variable {q : Reserve}

/-- The exchange rate never divides by zero. -/
theorem collateralExchangeRate_pos (q : Reserve) :
    0 < q.collateralExchangeRate.totalLiquidity.toNat ∧
      0 < q.collateralExchangeRate.collateralSupply.toNat := by
  unfold collateralExchangeRate ReserveCollateral.exchangeRate
  split
  case isTrue => exact ⟨Nat.one_pos, Nat.one_pos⟩
  case isFalse hsome =>
    obtain ⟨hsupply, htotal⟩ := not_or.mp hsome
    refine ⟨ne_zero_iff_toNat_pos.mpr htotal, ?_⟩
    rw [toNat_toU128]
    exact ne_zero_iff_toNat_pos.mpr hsupply

/-- With cTokens outstanding and liquidity behind them it is their quotient. -/
theorem collateralExchangeRate_of_pos (hsupply : 0 < q.collateral.mintTotalSupply.toNat)
    (htotal : 0 < q.liquidity.totalSupplyOrZero.toNat) :
    q.collateralExchangeRate.totalLiquidity = q.liquidity.totalSupplyOrZero ∧
      q.collateralExchangeRate.collateralSupply = q.collateral.mintTotalSupply.toU128 := by
  have hsome : ¬ (q.collateral.mintTotalSupply = 0 ∨ q.liquidity.totalSupplyOrZero = 0) :=
    not_or.mpr ⟨ne_zero_iff_toNat_pos.mp hsupply, ne_zero_iff_toNat_pos.mp htotal⟩
  rw [collateralExchangeRate, ReserveCollateral.exchangeRate, if_neg hsome]
  exact ⟨rfl, rfl⟩

end Reserve

namespace Ledger

variable {clock : Clock} {repayKey withdrawKey : Pubkey}
  {reserves reserves' : Pubkey → Option Reserve} {o o' o₁ : Obligation} {a : U64} {s : Seizure}
  {r r₁ q q₁ : Reserve} {i : Fin maxBorrowCountInReserve} {j : Fin maxDepositsCountInReserve}

/-- What a repayment buys is `Kit.sharesFor` of `Kit.unitsFor`, at the reserve's exchange rate. -/
theorem boughtCtokens_eq (repaid price bonusBps : ℕ) (q : Reserve) :
    boughtCtokens repaid price q.liquidity.marketPriceSf.toNat
        q.liquidity.totalSupplyOrZero.toNat q.collateral.mintTotalSupply.toNat bonusBps =
      sharesFor
        (unitsFor (repaid * price) (10000 + bonusBps) 10000 q.liquidity.marketPriceSf.toNat)
        q.collateralExchangeRate.totalLiquidity.toNat
        q.collateralExchangeRate.collateralSupply.toNat := by
  unfold boughtCtokens
  by_cases hnone : q.collateral.mintTotalSupply.toNat = 0 ∨
      q.liquidity.totalSupplyOrZero.toNat = 0
  · have hbits : q.collateral.mintTotalSupply = 0 ∨ q.liquidity.totalSupplyOrZero = 0 :=
      hnone.imp BitVec.eq_of_toNat_eq BitVec.eq_of_toNat_eq
    have hone : (1 : U128).toNat = 1 := rfl
    rw [Reserve.collateralExchangeRate, ReserveCollateral.exchangeRate, if_pos hbits]
    simp only [if_pos hnone, hone, sharesFor, Nat.mul_one, Nat.div_one]
    rfl
  · obtain ⟨hsupply, htotal⟩ := not_or.mp hnone
    obtain ⟨htotal', hsupply'⟩ := Reserve.collateralExchangeRate_of_pos (Nat.pos_of_ne_zero hsupply)
      (Nat.pos_of_ne_zero htotal)
    rw [htotal', hsupply', toNat_toU128]
    simp only [if_neg hnone]
    rfl

/-- A run works on the reserves and the slots that its inputs name. -/
theorem seizes_of {gate : Obligation → Result Unit}
    (h : seize gate clock repayKey withdrawKey reserves o a = .ok s)
    (hrepay : ∃ r, reserves repayKey = some r ∧ r.accrueInterest clock.slot = .ok r₁)
    (hwithdraw : ∃ q, reserves withdrawKey = some q ∧ q.accrueInterest clock.slot = .ok q₁)
    (hi : o.findBorrow repayKey = .ok i) (hj : o.findDeposit withdrawKey = .ok j) :
    ∃ r q o₁, Seizes clock repayKey withdrawKey reserves o a s r r₁ q q₁ i j o₁ := by
  obtain ⟨r, r₁', q, q₁', i', j', o₁, hs⟩ := seize_parts h
  obtain ⟨r', hr', hracc⟩ := hrepay
  obtain rfl : r = r' := Option.some.inj (hs.repayReserve.symm.trans hr')
  obtain rfl : r₁' = r₁ := Except.ok.inj (hs.repayAccrued.symm.trans hracc)
  obtain ⟨q', hq', hqacc⟩ := hwithdraw
  obtain ⟨q₀, hq₀, hacc⟩ := hs.withdrawn
  obtain rfl : q₀ = q' := Option.some.inj (hq₀.symm.trans hq')
  obtain rfl : q₁' = q₁ := Except.ok.inj (hacc.symm.trans hqacc)
  obtain rfl : i' = i := Except.ok.inj (hs.borrow.symm.trans hi)
  obtain rfl : j' = j := Except.ok.inj (hs.findDeposit.symm.trans hj)
  exact ⟨r, q, o₁, hs⟩

/-! ## The books -/

/-- What a liquidation moves: `paid` from the liquidator to the reserve and off the debt, `seized`
off the deposit. -/
structure Liquidates (clock : Clock) (repayKey withdrawKey : Pubkey)
    (reserves reserves' : Pubkey → Option Reserve) (o o' : Obligation) (repayAmount : U64)
    (paid seized : ℕ) (r₁ q₁ : Reserve) (i : Fin maxBorrowCountInReserve)
    (j : Fin maxDepositsCountInReserve) (o₁ : Obligation) : Prop where
  repayReserve : ∃ r, reserves repayKey = some r ∧ r.accrueInterest clock.slot = .ok r₁
  withdrawReserve : ∃ q, reserves withdrawKey = some q ∧ q.accrueInterest clock.slot = .ok q₁
  debt : o.findBorrow repayKey = .ok i
  collateral : o.findDeposit withdrawKey = .ok j
  /-- `o₁` is the obligation with this debt at the current index. -/
  accrued : (o.accrueInterest i r₁.liquidity.cumulativeBorrowRateSf).commit = .ok o₁
  paid_le : paid ≤ repayAmount.toNat
  half : 2 * paid ≤ o₁.borrows[i].borrowedAmountSf.toNat / 10 ^ 12
  seized_le : seized ≤ o.deposits[j].depositedAmount.toNat
  premium : 0 < q₁.collateral.mintTotalSupply.toNat → 0 < q₁.liquidity.totalSupplyOrZero.toNat →
    seized * q₁.liquidity.totalSupplyOrZero.toNat * q₁.liquidity.marketPriceSf.toNat * 10000 ≤
      paid * r₁.liquidity.marketPriceSf.toNat * (10000 + q₁.config.liquidationBonusPct.toNat) *
        q₁.collateral.mintTotalSupply.toNat
  reserve : ∃ r₃, reserves' repayKey = some r₃ ∧
    r₃.liquidity.borrowedAmountSf.toNat + paid = r₁.liquidity.borrowedAmountSf.toNat ∧
    r₃.liquidity.availableAmount.toNat = r₁.liquidity.availableAmount.toNat + paid
  debtSlot : o'.borrows[i].borrowedAmountSf.toNat + paid * 10 ^ 12 =
    o₁.borrows[i].borrowedAmountSf.toNat
  depositSlot : o'.deposits[j].depositedAmount.toNat + seized =
    o.deposits[j].depositedAmount.toNat
  otherDebts : ∀ x, x ≠ i → o'.borrows[x] = o.borrows[x]
  otherDeposits : ∀ x, x ≠ j → o'.deposits[x] = o.deposits[x]

theorem Seizes.premium
    (hs : Seizes clock repayKey withdrawKey reserves o a s r r₁ q q₁ i j o₁)
    (hsupply : 0 < q₁.collateral.mintTotalSupply.toNat)
    (htotal : 0 < q₁.liquidity.totalSupplyOrZero.toNat) :
    s.ctokensToSeize.toNat * q₁.liquidity.totalSupplyOrZero.toNat *
        q₁.liquidity.marketPriceSf.toNat * 10000 ≤
      s.actualRepay.toNat * r₁.liquidity.marketPriceSf.toNat *
        (10000 + q₁.config.liquidationBonusPct.toNat) * q₁.collateral.mintTotalSupply.toNat := by
  have hseized := hs.seized.le.trans (Nat.min_le_left _ _)
  obtain ⟨htotal', hsupply'⟩ := Reserve.collateralExchangeRate_of_pos hsupply htotal
  rw [boughtCtokens_eq, htotal', hsupply', toNat_toU128] at hseized
  exact mul_le_of_le_bought hseized

/-- The repaid reserve, with its accrual before it. -/
theorem Seizes.reservePaid
    (hs : Seizes clock repayKey withdrawKey reserves o a s r r₁ q q₁ i j o₁) :
    ∃ r₃, s.reserves repayKey = some r₃ ∧
      r₃.liquidity.borrowedAmountSf.toNat + s.actualRepay.toNat =
        r₁.liquidity.borrowedAmountSf.toNat ∧
      r₃.liquidity.availableAmount.toNat =
        r₁.liquidity.availableAmount.toNat + s.actualRepay.toNat := by
  obtain ⟨r₃, hpay, hreserves⟩ := hs.paid
  obtain ⟨l, hl, rfl⟩ := Reserve.repay_ok.mp hpay
  obtain ⟨v, d, hv, hd, rfl⟩ := ReserveLiquidity.repay_ok.mp hl
  rw [hreserves, store_self]
  exact ⟨_, rfl, hd, hv⟩

/-- At most half of the debt is repaid, so its slot stays, and nothing else changes but the slot
that is drawn on. -/
theorem Seizes.liquidates
    (hs : Seizes clock repayKey withdrawKey reserves o a s r r₁ q q₁ i j o₁) :
    Liquidates clock repayKey withdrawKey reserves s.reserves o s.obligation a s.actualRepay.toNat
      s.ctokensToSeize.toNat r₁ q₁ i j o₁ := by
  obtain ⟨o₂, ho₂, ho₃⟩ := hs.obligation
  obtain ⟨left, hleft, rfl⟩ := Obligation.repay_half hs.findBorrow_accrued hs.half ho₂
  rw [toNat_toU128] at hleft
  have hothers : ∀ x, x ≠ i → o₁.borrows[x] = o.borrows[x] := by
    intro x hx
    rcases Obligation.accrueInterest_ok hs.accrued with rfl | ⟨-, -, -, d, -, rfl⟩
    · rfl
    · exact getElem_set_fin_ne _ _ (Ne.symm hx)
  -- the withdrawal finds the debt slot written and the deposits as they were
  have hborrows := Obligation.borrows_withdraw ho₃
  have hfound : (o₁.setBorrow i { o₁.borrows[i] with borrowedAmountSf := left }).findDeposit
      withdrawKey = .ok j := hs.deposit
  obtain ⟨hdeposit, hotherDeposits⟩ := Obligation.depositSlots_withdraw hfound ho₃
  rw [Obligation.setBorrow_borrows] at hborrows
  rw [Obligation.setBorrow_deposits, hs.deposits_accrued.1] at hdeposit hotherDeposits
  exact {
    repayReserve := ⟨r, hs.repayReserve, hs.repayAccrued⟩
    withdrawReserve := hs.withdrawn
    debt := hs.borrow
    collateral := hs.findDeposit
    accrued := hs.accrued
    paid_le := hs.repaid.le.trans (Nat.min_le_left _ _)
    half := by
      have hhalf := hs.half
      rwa [toNat_toU128] at hhalf
    seized_le := hs.seized.le.trans (Nat.min_le_right _ _)
    premium := hs.premium
    reserve := hs.reservePaid
    debtSlot := by
      rw [hborrows, getElem_set_fin_self]
      exact hleft
    depositSlot := hdeposit
    otherDebts := by
      intro x hx
      rw [hborrows, getElem_set_fin_ne _ _ (Ne.symm hx)]
      exact hothers x hx
    otherDeposits := hotherDeposits }

/-! ## What the liquidator gets for it -/

/-- The cTokens, at the exchange rate and the price of their reserve, are worth the repayment, up to
one underlying unit and one cToken. -/
def PaysFor (r q : Reserve) (repaid ctokens : ℕ) : Prop :=
  WorthAtLeast (repaid * r.liquidity.marketPriceSf.toNat) q.liquidity.marketPriceSf.toNat
    q.collateralExchangeRate.totalLiquidity.toNat q.collateralExchangeRate.collateralSupply.toNat
    ctokens

instance decidablePaysFor (r q : Reserve) (repaid ctokens : ℕ) :
    Decidable (PaysFor r q repaid ctokens) :=
  inferInstanceAs (Decidable (_ ≤ _))

theorem Seizes.paysFor_iff
    (hs : Seizes clock repayKey withdrawKey reserves o a s r r₁ q q₁ i j o₁) :
    PaysFor r₁ q₁ s.actualRepay.toNat s.ctokensToSeize.toNat ↔
      PaysFor r₁ q₁ s.actualRepay.toNat o.deposits[j].depositedAmount.toNat := by
  have hprice : 0 < q₁.liquidity.marketPriceSf.toNat := ne_zero_iff_toNat_pos.mpr hs.withdrawPrice
  have hassets := (Reserve.collateralExchangeRate_pos q₁).1
  rw [hs.seized, boughtCtokens_eq]
  exact worthAtLeast_min_iff _ _ (by decide) (Nat.le_add_right _ _) hprice hassets

/-- The seizure pays for the repayment exactly when the whole deposit would pay for it: the
repayment is fixed before the deposit caps the seizure. -/
theorem liquidator_paid_iff {market : LendingMarket} {r q : Reserve}
    (hrun : liquidate market clock repayKey withdrawKey reserves o a = .ok s ∨
      ∃ flag, executePrivateLiquidation market flag clock repayKey withdrawKey reserves o a = .ok s)
    (hr : reserves repayKey = some r) (hracc : r.accrueInterest clock.slot = .ok r₁)
    (hq : reserves withdrawKey = some q) (hqacc : q.accrueInterest clock.slot = .ok q₁)
    (hi : o.findBorrow repayKey = .ok i) (hj : o.findDeposit withdrawKey = .ok j) :
    PaysFor r₁ q₁ s.actualRepay.toNat s.ctokensToSeize.toNat ↔
      PaysFor r₁ q₁ (repayment o.borrows[i] r₁.liquidity.cumulativeBorrowRateSf a)
        o.deposits[j].depositedAmount.toNat := by
  obtain ⟨gate, hseize⟩ : ∃ gate,
      seize gate clock repayKey withdrawKey reserves o a = .ok s := by
    rcases hrun with hpublic | ⟨flag, hprivate⟩
    · exact ⟨_, liquidate_ok hpublic⟩
    · exact ⟨_, (executePrivateLiquidation_ok hprivate).2⟩
  obtain ⟨_, _, o₁, hs⟩ := seizes_of hseize ⟨r, hr, hracc⟩ ⟨q, hq, hqacc⟩ hi hj
  rw [← hs.actualRepay_eq]
  exact hs.paysFor_iff

/-- A dollar of debt costs a dollar, and there is a bonus of five percent. -/
def owedReserve (mint : Pubkey) : Reserve where
  liquidity := { ReserveLiquidity.init mint (.key 6) (.key 7) with
    availableAmount := 1000, borrowedAmountSf := 1000, marketPriceSf := rateScale }
  config :=
    { depositLimit := 5000, borrowLimit := 5000, minBorrowRateBps := 200,
      optimalBorrowRateBps := 500, maxBorrowRateBps := 2000, optimalUtilizationBps := 8000,
      liquidationBonusPct := 500, protocolFee := 100, status := 0, loanToValuePct := 75,
      liquidationThresholdPct := 80, pythOracle := .key 11 }
  collateral := { ReserveCollateral.init (.key 8) (.key 9) with mintTotalSupply := 2000 }
  version := 1
  lastUpdateSlot := 9
  lendingMarket := .key 2

/-- One reserve lent from, and one deposited in. -/
def owedReserves (k : Pubkey) : Option Reserve :=
  if k = .key 3 then some (owedReserve (.key 13))
  else if k = .key 4 then some (owedReserve (.key 14)) else none

/-- A debt of 1000 dollars on a number of cTokens, before a refresh. -/
def owingObligation (ctokens : U64) : Obligation :=
  { ((Obligation.init (.key 1) (.key 2)).setDeposit 0
        { depositReserve := .key 4, depositedAmount := ctokens, marketValueSf := 0 }).setBorrow 0
      { borrowReserve := .key 3, borrowedAmountSf := 1000 * rateScale,
        cumulativeBorrowRateSf := rateScale, marketValueSf := 0 } with
    depositsCount := 1
    borrowsCount := 1 }

theorem liquidator_paid_iff_owing : ∃ o s,
    refreshObligation owedReserves [.key 3, .key 4] ⟨9, 900⟩ (owingObligation 600) = .ok o ∧
    liquidate (.init (.key 1) 0) ⟨9, 900⟩ (.key 3) (.key 4) owedReserves o 500 = .ok s ∧
    PaysFor (owedReserve (.key 13)) (owedReserve (.key 14)) s.actualRepay.toNat
      s.ctokensToSeize.toNat := by
  have hok : (refreshObligation owedReserves [.key 3, .key 4] ⟨9, 900⟩
      (owingObligation 600)).toOption.any (fun o =>
        (liquidate (.init (.key 1) 0) ⟨9, 900⟩ (.key 3) (.key 4) owedReserves o
          500).toOption.any fun _ =>
            o.findBorrow (.key 3) = .ok 0 && o.findDeposit (.key 4) = .ok 0 &&
              PaysFor (owedReserve (.key 13)) (owedReserve (.key 14))
                (repayment o.borrows[0] rateScale 500) o.deposits[0].depositedAmount.toNat) =
      true := by decide +kernel
  obtain ⟨o, ho, hok⟩ := toOption_any.mp hok
  obtain ⟨s, hs, hok⟩ := toOption_any.mp hok
  simp only [Bool.and_eq_true, decide_eq_true_eq] at hok
  obtain ⟨⟨hi, hj⟩, hpays⟩ := hok
  refine ⟨o, s, ho, hs, ?_⟩
  exact (liquidator_paid_iff (.inl hs) rfl (by decide +kernel) rfl (by decide +kernel) hi hj).mpr
    hpays

/-- Half of the debt is repaid for a single cToken, all that the position has left. -/
theorem not_forall_liquidator_paid :
    ¬ ∀ (market : LendingMarket) (clock : Clock) (repayKey withdrawKey : Pubkey)
      (reserves : Pubkey → Option Reserve) (o : Obligation) (a : U64) (s : Seizure)
      (r r₁ q q₁ : Reserve), liquidate market clock repayKey withdrawKey reserves o a = .ok s →
      reserves repayKey = some r → r.accrueInterest clock.slot = .ok r₁ →
      reserves withdrawKey = some q → q.accrueInterest clock.slot = .ok q₁ →
      PaysFor r₁ q₁ s.actualRepay.toNat s.ctokensToSeize.toNat := by
  intro hall
  have hrun : (refreshObligation owedReserves [.key 3, .key 4] ⟨9, 900⟩
      (owingObligation 1)).toOption.any (fun o =>
        (liquidate (.init (.key 1) 0) ⟨9, 900⟩ (.key 3) (.key 4) owedReserves o
          500).toOption.any fun s =>
            ¬ PaysFor (owedReserve (.key 13)) (owedReserve (.key 14)) s.actualRepay.toNat
              s.ctokensToSeize.toNat) = true := by decide +kernel
  obtain ⟨o, -, hrun⟩ := toOption_any.mp hrun
  obtain ⟨s, hs, hrun⟩ := toOption_any.mp hrun
  exact of_decide_eq_true hrun (hall _ _ _ _ _ _ _ _ _ _ _ _ hs rfl (by decide +kernel) rfl
    (by decide +kernel))

end Ledger

end VeilVault
