/-
# VeilVault.Ledger.Edge — liquidating at the edge.

A debt just above the liquidation threshold is repaid in part, and collateral is seized for it with
a bonus.  If the bonus is larger than what the threshold leaves between debt and collateral, the
position is less healthy after the liquidation than before.  `validate` bounds the threshold and
leaves the bonus alone; this file says which configurations keep the health of such positions.
-/
import VeilVault.Ledger.Liquidation
import VeilVault.Obligation.Health

namespace VeilVault

open Kit Kit.Outcome

/-- What cTokens are worth before the threshold is applied. -/
def Quote.collateralValue (q : Quote) (ctokens : ℕ) : ℕ := q.underlying ctokens * q.price

/-- cTokens that were bought for some units lower the value by those units at most. -/
theorem Quote.collateralValue_le {q : Quote} {ctokens left n units : ℕ}
    (hunits : n * q.total ≤ units * q.supply) (hleft : left + n = ctokens) :
    q.collateralValue ctokens ≤ q.collateralValue left + units * q.price := by
  rw [collateralValue, collateralValue, ← Nat.add_mul]
  apply Nat.mul_le_mul_right
  unfold underlying
  by_cases hsupply : q.supply = 0
  · rw [if_pos hsupply]
    exact Nat.zero_le _
  · rw [if_neg hsupply, if_neg hsupply]
    exact units_le_of_taken (Nat.pos_of_ne_zero hsupply) hunits hleft

namespace Ledger

/-! ## One debt, one deposit -/

/-- A liquidation of an obligation with a single debt and a single deposit, the deposit in a reserve
configured as `c`.  The reserves named here are those of the books, brought to the slot. -/
structure SoleLiquidation (c : ReserveConfig) where
  market : LendingMarket
  clock : Clock
  repayKey : Pubkey
  withdrawKey : Pubkey
  reserves : Pubkey → Option Reserve
  obligation : Obligation
  repayAmount : U64
  seizure : Seizure
  repayReserve : Reserve
  withdrawReserve : Reserve
  borrowSlot : Fin maxBorrowCountInReserve
  depositSlot : Fin maxDepositsCountInReserve
  succeeds : liquidate market clock repayKey withdrawKey reserves obligation repayAmount =
    .ok seizure
  repaid : ∃ r, reserves repayKey = some r ∧ r.accrueInterest clock.slot = .ok repayReserve
  withdrawn : ∃ q, reserves withdrawKey = some q ∧ q.config = c ∧
    q.accrueInterest clock.slot = .ok withdrawReserve
  owes : obligation.findBorrow repayKey = .ok borrowSlot
  holds : obligation.findDeposit withdrawKey = .ok depositSlot
  soleDebt : ∀ x, x ≠ borrowSlot → obligation.borrows[x].isActive = false
  soleDeposit : ∀ x, x ≠ depositSlot → obligation.deposits[x].isActive = false

namespace SoleLiquidation

variable {c : ReserveConfig}

/-- The value of the collateral before the liquidation. -/
def collateral (l : SoleLiquidation c) : ℕ :=
  l.withdrawReserve.quote.collateralValue l.obligation.deposits[l.depositSlot].depositedAmount.toNat

/-- The value of the debt before it, with the interest up to this slot. -/
def debt (l : SoleLiquidation c) : ℕ :=
  l.repayReserve.quote.debtValue
    (l.obligation.borrows[l.borrowSlot].debtAt l.repayReserve.liquidity.cumulativeBorrowRateSf)

/-- The value of the collateral afterwards. -/
def collateralLeft (l : SoleLiquidation c) : ℕ :=
  l.withdrawReserve.quote.collateralValue
    l.seizure.obligation.deposits[l.depositSlot].depositedAmount.toNat

/-- The value of the debt afterwards. -/
def debtLeft (l : SoleLiquidation c) : ℕ :=
  l.repayReserve.quote.debtValue
    l.seizure.obligation.borrows[l.borrowSlot].borrowedAmountSf.toNat

/-- Unhealthy by at most one unit of debt. -/
def AtEdge (l : SoleLiquidation c) : Prop :=
  l.collateral * c.liquidationThresholdPct.toNat < l.debt * 100 ∧
    l.debt * 100 ≤ l.collateral * c.liquidationThresholdPct.toNat +
      l.repayReserve.liquidity.marketPriceSf.toNat * 100

/-- The deposit holds all that the repayment buys. -/
def Uncapped (l : SoleLiquidation c) : Prop :=
  boughtCtokens l.seizure.actualRepay.toNat l.repayReserve.liquidity.marketPriceSf.toNat
      l.withdrawReserve.liquidity.marketPriceSf.toNat
      l.withdrawReserve.liquidity.totalSupplyOrZero.toNat
      l.withdrawReserve.collateral.mintTotalSupply.toNat c.liquidationBonusPct.toNat ≤
    l.obligation.deposits[l.depositSlot].depositedAmount.toNat

/-- The ratio of collateral to debt does not fall, up to one atomic unit of either. -/
def NoWorse (l : SoleLiquidation c) : Prop :=
  l.collateral * l.debtLeft ≤
    (l.collateralLeft + l.withdrawReserve.liquidity.marketPriceSf.toNat) * l.debt +
      l.collateral * l.repayReserve.liquidity.marketPriceSf.toNat

end SoleLiquidation

/-- No liquidation at the edge against deposits in a reserve of this configuration hurts health. -/
def KeepsHealth (c : ReserveConfig) : Prop :=
  ∀ l : SoleLiquidation c, l.AtEdge → l.Uncapped → l.NoWorse

/-! ## A bonus within the threshold -/

section Within

variable {c : ReserveConfig}

/-- What is bought, turned back into the underlying asset, is at most the units it was bought
for. -/
theorem boughtCtokens_mul_le {repaid p w total supply bonusBps n : ℕ} (hsupply : supply ≠ 0)
    (h : n ≤ boughtCtokens repaid p w total supply bonusBps) :
    n * total ≤ unitsFor (repaid * p) (10000 + bonusBps) 10000 w * supply := by
  by_cases htotal : total = 0
  · rw [htotal, Nat.mul_zero]
    exact Nat.zero_le _
  · have hbought : boughtCtokens repaid p w total supply bonusBps =
        sharesFor (unitsFor (repaid * p) (10000 + bonusBps) 10000 w) total supply :=
      if_neg (not_or.mpr ⟨hsupply, htotal⟩)
    rw [hbought] at h
    exact (Nat.mul_le_mul_right total h).trans (sharesFor_mul_le _ _ _)

namespace SoleLiquidation

variable (l : SoleLiquidation c)

theorem seizes : ∃ r q o₁, Seizes l.clock l.repayKey l.withdrawKey l.reserves l.obligation
    l.repayAmount l.seizure r l.repayReserve q l.withdrawReserve l.borrowSlot l.depositSlot o₁ := by
  obtain ⟨q, hq, -, hacc⟩ := l.withdrawn
  exact seizes_of (liquidate_ok l.succeeds) l.repaid ⟨q, hq, hacc⟩ l.owes l.holds

theorem config_eq : l.withdrawReserve.config = c := by
  obtain ⟨q, -, hconfig, hacc⟩ := l.withdrawn
  exact (Reserve.accrues_of_ok hacc).config.trans hconfig

/-- The debt falls by what is paid. -/
theorem debtLeft_add : l.debtLeft +
    l.seizure.actualRepay.toNat * l.repayReserve.liquidity.marketPriceSf.toNat = l.debt := by
  obtain ⟨r, q, o₁, hs⟩ := l.seizes
  have hslot := hs.liquidates.debtSlot
  rw [Obligation.debtAt_of_accrueInterest hs.accrued] at hslot
  rw [debt, debtLeft, ← hslot, Quote.debtValue_add]
  rfl

/-- What the repayment buys, in value. -/
def taken : ℕ :=
  unitsFor (l.seizure.actualRepay.toNat * l.repayReserve.liquidity.marketPriceSf.toNat)
      (10000 + c.liquidationBonusPct.toNat) 10000 l.withdrawReserve.liquidity.marketPriceSf.toNat *
    l.withdrawReserve.liquidity.marketPriceSf.toNat

/-- The collateral falls by no more than that. -/
theorem collateral_le : l.collateral ≤ l.collateralLeft + l.taken := by
  obtain ⟨r, q, o₁, hs⟩ := l.seizes
  by_cases hsupply : l.withdrawReserve.quote.supply = 0
  · have hzero : l.collateral = 0 := by
      rw [collateral, Quote.collateralValue, Quote.underlying, if_pos hsupply, Nat.zero_mul]
    rw [hzero]
    exact Nat.zero_le _
  · have hbought := hs.seized.le.trans (Nat.min_le_left _ _)
    rw [l.config_eq] at hbought
    exact Quote.collateralValue_le (boughtCtokens_mul_le hsupply hbought) hs.liquidates.depositSlot

/-- A bonus within the threshold keeps the health of every position at the edge. -/
theorem noWorse (hedge : l.AtEdge)
    (hcap : (10000 + c.liquidationBonusPct.toNat) * c.liquidationThresholdPct.toNat ≤ 10 ^ 6) :
    l.NoWorse := by
  have htaken : l.taken * c.liquidationThresholdPct.toNat ≤
      l.seizure.actualRepay.toNat * l.repayReserve.liquidity.marketPriceSf.toNat * 100 :=
    taken_mul_le (by decide) (unitsFor_mul_le _ _ 10000 _) hcap
  have hkept := ratio_kept (by decide) l.collateral_le l.debtLeft_add htaken hedge.2
  unfold NoWorse
  rw [Nat.add_mul]
  omega

end SoleLiquidation

end Within

/-! ## A bonus above it

A billion cTokens, each worth a unit of a dollar, back a debt one unit above the threshold, and
three million units of it are repaid.  The seizure is larger than the repayment by three hundred
cTokens for each point of the bonus. -/

section Above

/-- Each unit of debt costs a dollar. -/
def edgeLoan : Reserve :=
  { owedReserve (.key 13) with
    liquidity := { (owedReserve (.key 13)).liquidity with borrowedAmountSf := 10000000000 } }

/-- As many units as cTokens. -/
def edgePool (c : ReserveConfig) : Reserve :=
  { owedReserve (.key 14) with
    config := c
    liquidity := { ReserveLiquidity.init (.key 14) (.key 6) (.key 7) with
      availableAmount := 1000000000, marketPriceSf := rateScale }
    collateral := { ReserveCollateral.init (.key 8) (.key 9) with mintTotalSupply := 1000000000 } }

def edgeReserves (c : ReserveConfig) (k : Pubkey) : Option Reserve :=
  if k = .key 3 then some edgeLoan else if k = .key 4 then some (edgePool c) else none

/-- A debt with its cached value, on a billion cTokens with theirs. -/
def edgeObligation (value debt : U128) : Obligation :=
  { ((owingObligation 1000000000).setDeposit 0
        { depositReserve := .key 4, depositedAmount := 1000000000,
          marketValueSf := value }).setBorrow 0
      { borrowReserve := .key 3, borrowedAmountSf := debt, cumulativeBorrowRateSf := rateScale,
        marketValueSf := debt } with
    lastUpdate := ⟨9, 900⟩ }

variable {c : ReserveConfig}

theorem findBorrow_edge (value debt : U128) :
    (edgeObligation value debt).findBorrow (.key 3) = .ok 0 := by
  have hbase : (owingObligation 1000000000).findBorrow (.key 3) = .ok 0 := by decide +kernel
  exact Obligation.findBorrow_setBorrow hbase rfl

theorem findDeposit_edge (value debt : U128) :
    (edgeObligation value debt).findDeposit (.key 4) = .ok 0 := by
  have hbase : (owingObligation 1000000000).findDeposit (.key 4) = .ok 0 := by decide +kernel
  exact Obligation.findDeposit_setDeposit hbase rfl

theorem summable_edge (value debt : U128) : (edgeObligation value debt).Summable := by
  have hdeposits : depositLayout.Packed (owingObligation 1000000000).deposits 1 := by
    unfold Layout.Packed
    decide +kernel
  have hborrows : borrowLayout.Packed (owingObligation 1000000000).borrows 1 := by
    unfold Layout.Packed
    decide +kernel
  have hcount : (1 : U8).toNat ≤ 8 := by decide
  have hpool : Pubkey.key 4 ≠ default := by decide
  have hloan : Pubkey.key 3 ≠ default := by decide
  exact {
    packedDeposits := hdeposits.set_live ((hdeposits 0).mpr Nat.one_pos) hpool
    packedBorrows := hborrows.set_live ((hborrows 0).mpr Nat.one_pos) hloan
    depositsCount_le := hcount
    borrowsCount_le := hcount
    depositSum_lt := value.isLt
    borrowSum_lt := debt.isLt }

theorem boughtCtokens_edge (bonusBps : ℕ) :
    boughtCtokens 3000000 (10 ^ 12) (10 ^ 12) 1000000000 1000000000 bonusBps =
      3000000 + 300 * bonusBps := by
  rw [boughtCtokens, if_neg (by decide), Nat.mul_div_cancel _ (by decide)]
  omega

/-- What three million units buy. -/
theorem exists_ctokensFor_edge (bonusBps : U16) : ∃ ctokens : U128,
    ctokensFor 3000000 rateScale rateScale 1000000000 1000000000 bonusBps.toU128 = .ok ctokens ∧
      ctokens.toNat = 3000000 + 300 * bonusBps.toNat := by
  have hbonus := bonusBps.isLt
  have hvalue : (3000000 : U64).toNat * rateScale.toNat = 3 * 10 ^ 18 := by decide
  have hsupply : (1000000000 : U128).toNat = 1000000000 := rfl
  obtain ⟨ctokens, hrun⟩ : ∃ ctokens, ctokensFor 3000000 rateScale rateScale 1000000000 1000000000
      bonusBps.toU128 = .ok ctokens := by
    apply exists_ctokensFor
    · decide
    · rw [toNat_u16_toU128]
      omega
    · rw [toNat_u16_toU128, hvalue]
      omega
    · rw [toNat_u16_toU128, hvalue, toNat_rateScale, hsupply]
      omega
  refine ⟨ctokens, hrun, ?_⟩
  rw [ctokensFor_ok hrun, toNat_u16_toU128]
  exact boughtCtokens_edge _

/-- The close factor leaves the amount as it is, when half of the debt is as much. -/
theorem repaid_edge {debt : U128} (hhalf : 6000000 * 10 ^ 12 ≤ debt.toNat)
    (hfits : debt.toNat < 2 ^ 64 * 10 ^ 12) :
    ∃ scaled, checkedMul (debt / rateScale) maxLiquidationCloseFactorPct = some scaled ∧
      U64.min 3000000 (U128.toU64 (scaled / percentScaler)) = 3000000 := by
  have hdebt : (debt / rateScale).toNat = debt.toNat / 10 ^ 12 := by
    rw [BitVec.toNat_udiv, toNat_rateScale]
  obtain ⟨scaled, hrun, hscaled⟩ : ∃ scaled,
      checkedMul (debt / rateScale) maxLiquidationCloseFactorPct = some scaled ∧
        scaled.toNat = (debt / rateScale).toNat * maxLiquidationCloseFactorPct.toNat := by
    apply exists_checkedMul
    rw [hdebt, toNat_closeFactor]
    omega
  rw [hdebt, toNat_closeFactor] at hscaled
  refine ⟨scaled, hrun, ?_⟩
  apply BitVec.eq_of_toNat_eq
  rw [toNat_u64_min, toNat_toU64, BitVec.toNat_udiv, toNat_percentScaler, hscaled]
  show min 3000000 _ = 3000000
  omega

/-- The obligation takes the repayment and gives up the collateral. -/
theorem exists_settled_edge (value : U128) {debt : U128} {seized : U64}
    (howed : 3000000 * 10 ^ 12 ≤ debt.toNat) (hpos : seized > 0)
    (hheld : seized.toNat ≤ 1000000000) :
    ∃ o₁ o₂, ((edgeObligation value debt).repay (.key 3) (3000000 : U64).toU128).commit = .ok o₁ ∧
      (o₁.withdraw (.key 4) seized).commit = .ok o₂ := by
  obtain ⟨o₁, ho₁, hdeposits⟩ :=
    Obligation.exists_repay (a := (3000000 : U64).toU128) (findBorrow_edge value debt) (by decide)
      howed
  have hfound : o₁.findDeposit (.key 4) = .ok 0 := by
    rw [Obligation.findDeposit, hdeposits]
    exact findDeposit_edge value debt
  obtain ⟨o₂, ho₂, -⟩ : ∃ o₂, (o₁.withdraw (.key 4) seized).commit = .ok o₂ ∧
      o₂.borrows = o₁.borrows ∧ o₂.borrowsCount = o₁.borrowsCount := by
    apply Obligation.exists_withdraw hfound hpos
    rw [hdeposits]
    exact hheld
  exact ⟨o₁, o₂, ho₁, ho₂⟩

/-- The liquidation goes through: nothing in it overflows. -/
theorem exists_liquidate_edge {value debt : U128} (hactive : c.isActive = true)
    (hlt : value.toNat < debt.toNat) (hhalf : 6000000 * 10 ^ 12 ≤ debt.toNat)
    (hfits : debt.toNat < 2 ^ 64 * 10 ^ 12) :
    ∃ s, liquidate (.init (.key 1) 0) ⟨9, 900⟩ (.key 3) (.key 4) (edgeReserves c)
        (edgeObligation value debt) 3000000 = .ok s ∧ s.actualRepay = 3000000 ∧
      s.ctokensToSeize.toNat = 3000000 + 300 * c.liquidationBonusPct.toNat := by
  have hbonus := c.liquidationBonusPct.isLt
  have hgate : (edgeObligation value debt).liquidationGate = .ok () :=
    (summable_edge value debt).liquidationGate_of_lt hlt
  -- neither reserve nor the debt has anything to accrue
  have hloan : edgeLoan.accrueInterest 9 = .ok edgeLoan :=
    Reserve.accrueInterest_current (by decide)
  have hpool : (edgePool c).accrueInterest 9 = .ok (edgePool c) :=
    Reserve.accrueInterest_current (Nat.le_refl 9)
  have hdebt : ((edgeObligation value debt).accrueInterest 0 rateScale).commit =
      .ok (edgeObligation value debt) := Obligation.accrueInterest_same (i := 0) rfl
  obtain ⟨scaled, hscaled, hrepaid⟩ := repaid_edge hhalf hfits
  obtain ⟨ctokens, hctokens, hbought⟩ := exists_ctokensFor_edge c.liquidationBonusPct
  have hseized : (U128.toU64 (U128.min ctokens (1000000000 : U64).toU128)).toNat =
      3000000 + 300 * c.liquidationBonusPct.toNat := by
    rw [toNat_toU64, toNat_u128_min, toNat_toU128, hbought]
    show min _ 1000000000 % 2 ^ 64 = _
    omega
  have hpositive : U128.toU64 (U128.min ctokens (1000000000 : U64).toU128) > 0 := by
    rw [gt_iff_lt, BitVec.lt_def, hseized]
    exact Nat.lt_of_lt_of_le (by decide) (Nat.le_add_right _ _)
  have hcleared : 3000000 * 10 ^ 12 ≤ debt.toNat := by omega
  obtain ⟨o₁, o₂, ho₁, ho₂⟩ := exists_settled_edge value hcleared hpositive (by omega)
  obtain ⟨r, hr⟩ : ∃ r, edgeLoan.repay 3000000 = .ok r := ⟨_, rfl⟩
  refine ⟨{
    reserves := store (store (store (edgeReserves c) (.key 3) edgeLoan) (.key 4) (edgePool c))
      (.key 3) r
    obligation := o₂
    actualRepay := 3000000
    ctokensToSeize := U128.toU64 (U128.min ctokens (1000000000 : U64).toU128) }, ?_, rfl, hseized⟩
  simp only [liquidate, seize, accruePriced, bind_eq_ok, require_eq_ok, exists_const, load_eq_ok,
    orAbort_eq_ok, pure_eq_ok]
  refine ⟨by decide, by decide, edgeLoan, rfl, edgeLoan,
    ⟨by decide, edgeLoan, hloan, by decide, rfl⟩, edgePool c, rfl, edgePool c,
    ⟨hactive, edgePool c, hpool, ?_, rfl⟩, 1000000000, rfl, rfl, (), hgate, 0,
    findBorrow_edge value debt, edgeObligation value debt, hdebt, scaled, hscaled, ?_, ctokens, ?_,
    0, findDeposit_edge value debt, hpositive, o₁, ?_, o₂, ho₂, edgeLoan, rfl, r, ?_, ?_⟩
  · show rateScale > 0
    decide
  · rw [hrepaid]
    decide
  · rw [hrepaid]
    exact hctokens
  · rw [hrepaid]
    exact ho₁
  · rw [hrepaid]
    exact hr
  · rw [hrepaid]
    rfl

/-- The same as a `SoleLiquidation`. -/
def edgeLiquidation {value debt : U128} {s : Seizure}
    (h : liquidate (.init (.key 1) 0) ⟨9, 900⟩ (.key 3) (.key 4) (edgeReserves c)
      (edgeObligation value debt) 3000000 = .ok s) : SoleLiquidation c where
  market := .init (.key 1) 0
  clock := ⟨9, 900⟩
  repayKey := .key 3
  withdrawKey := .key 4
  reserves := edgeReserves c
  obligation := edgeObligation value debt
  repayAmount := 3000000
  seizure := s
  repayReserve := edgeLoan
  withdrawReserve := edgePool c
  borrowSlot := 0
  depositSlot := 0
  succeeds := h
  repaid := ⟨edgeLoan, rfl, Reserve.accrueInterest_current (by decide)⟩
  withdrawn := ⟨edgePool c, rfl, rfl, Reserve.accrueInterest_current (Nat.le_refl 9)⟩
  owes := findBorrow_edge value debt
  holds := findDeposit_edge value debt
  soleDebt := by
    have hbase : ∀ x : Fin maxBorrowCountInReserve, x ≠ 0 →
        (owingObligation 1000000000).borrows[x].isActive = false := by decide +kernel
    intro x hx
    rw [edgeObligation, Obligation.setBorrow_borrows, getElem_set_fin_ne _ _ (Ne.symm hx)]
    exact hbase x hx
  soleDeposit := by
    have hbase : ∀ x : Fin maxDepositsCountInReserve, x ≠ 0 →
        (owingObligation 1000000000).deposits[x].isActive = false := by decide +kernel
    intro x hx
    rw [edgeObligation, Obligation.setBorrow_deposits, Obligation.setDeposit_deposits,
      getElem_set_fin_ne _ _ (Ne.symm hx)]
    exact hbase x hx

theorem collateralValue_edge (ctokens : ℕ) :
    (edgePool c).quote.collateralValue ctokens = ctokens * 10 ^ 12 := by
  have htotal : (edgePool c).quote.total = 1000000000 := rfl
  have hsupply : (edgePool c).quote.supply = 1000000000 := rfl
  have hprice : (edgePool c).quote.price = 10 ^ 12 := rfl
  rw [Quote.collateralValue, Quote.underlying, htotal, hsupply, hprice, if_neg (by decide),
    Nat.mul_div_cancel _ (by decide)]

/-- A bonus above the threshold takes more of the collateral than the repayment takes of the
debt. -/
theorem lt_of_bonus {t bonusBps left owed : ℕ} (hcap : 10 ^ 6 < (10000 + bonusBps) * t)
    (hleft : left + (3000000 + 300 * bonusBps) = 1000000000)
    (howed : owed + 3000000 = 10000000 * t + 1) :
    (left + 1) * (10000000 * t + 1) + 1000000000 < 1000000000 * owed := by
  have hwhole : left * (10000000 * t + 1) + (3000000 + 300 * bonusBps) * (10000000 * t + 1) =
      1000000000 * (10000000 * t + 1) := by
    rw [← Nat.add_mul, hleft]
  have htaken : (3000000 + 300 * bonusBps) * (10000000 * t + 1) =
      3000000000 * ((10000 + bonusBps) * t) + (3000000 + 300 * bonusBps) := by ring
  have hbase : 10000 * t ≤ (10000 + bonusBps) * t := Nat.mul_le_mul_right t (Nat.le_add_right _ _)
  rw [Nat.add_mul left]
  omega

section Values

variable {value debt : U128} {s : Seizure}
  (h : liquidate (.init (.key 1) 0) ⟨9, 900⟩ (.key 3) (.key 4) (edgeReserves c)
    (edgeObligation value debt) 3000000 = .ok s)

theorem collateral_edge : (edgeLiquidation h).collateral = 1000000000 * 10 ^ 12 :=
  collateralValue_edge _

theorem debt_edge {n : ℕ} (hdebt : debt.toNat = n * 10 ^ 12) :
    (edgeLiquidation h).debt = n * 10 ^ 12 := by
  have hat : (edgeObligation value debt).borrows[0].debtAt rateScale = debt.toNat :=
    ObligationLiquidity.debtAt_self rfl
  show edgeLoan.quote.debtValue ((edgeObligation value debt).borrows[0].debtAt rateScale) = _
  rw [hat, hdebt, Quote.debtValue, Nat.mul_div_cancel _ (by decide)]
  rfl

theorem debtLeft_edge (hrepaid : s.actualRepay = 3000000) :
    (edgeLiquidation h).debtLeft + 3000000 * 10 ^ 12 = (edgeLiquidation h).debt := by
  have hadd := (edgeLiquidation h).debtLeft_add
  rwa [show (edgeLiquidation h).seizure.actualRepay = 3000000 from hrepaid] at hadd

theorem collateralLeft_edge : ∃ left, left + s.ctokensToSeize.toNat = 1000000000 ∧
    (edgeLiquidation h).collateralLeft = left * 10 ^ 12 := by
  obtain ⟨_, _, _, hseizes⟩ := (edgeLiquidation h).seizes
  exact ⟨_, hseizes.liquidates.depositSlot, collateralValue_edge _⟩

theorem uncapped_edge (hrepaid : s.actualRepay = 3000000) : (edgeLiquidation h).Uncapped := by
  have hbonus := c.liquidationBonusPct.isLt
  have hpaid : (edgeLiquidation h).seizure.actualRepay.toNat = 3000000 :=
    congrArg BitVec.toNat hrepaid
  have hdebt : (edgeLiquidation h).repayReserve.liquidity.marketPriceSf.toNat = 10 ^ 12 :=
    toNat_rateScale
  have hprice : (edgeLiquidation h).withdrawReserve.liquidity.marketPriceSf.toNat = 10 ^ 12 :=
    toNat_rateScale
  have htotal : (edgeLiquidation h).withdrawReserve.liquidity.totalSupplyOrZero.toNat =
    1000000000 := rfl
  have hsupply : (edgeLiquidation h).withdrawReserve.collateral.mintTotalSupply.toNat =
    1000000000 := rfl
  unfold SoleLiquidation.Uncapped
  rw [hpaid, hdebt, hprice, htotal, hsupply, boughtCtokens_edge]
  show _ ≤ 1000000000
  omega

end Values

theorem not_keepsHealth (hactive : c.isActive = true)
    (hcap : 10 ^ 6 < (10000 + c.liquidationBonusPct.toNat) * c.liquidationThresholdPct.toNat) :
    ¬ KeepsHealth c := by
  intro hkeeps
  have ht := c.liquidationThresholdPct.isLt
  have hpos : 0 < c.liquidationThresholdPct.toNat := by
    apply Nat.pos_of_ne_zero
    intro hzero
    rw [hzero, Nat.mul_zero] at hcap
    exact Nat.not_lt_zero _ hcap
  -- the deposit is valued at the threshold, and the debt is one unit more
  obtain ⟨value, hvalue⟩ : ∃ value : U128,
      value.toNat = 10 ^ 19 * c.liquidationThresholdPct.toNat :=
    ⟨.ofNatLT _ (by omega), BitVec.toNat_ofNatLT _ _⟩
  obtain ⟨debt, hdebt⟩ : ∃ debt : U128,
      debt.toNat = (10000000 * c.liquidationThresholdPct.toNat + 1) * 10 ^ 12 :=
    ⟨.ofNatLT _ (by omega), BitVec.toNat_ofNatLT _ _⟩
  obtain ⟨s, hs, hrepaid, hseized⟩ := exists_liquidate_edge hactive
    (show value.toNat < debt.toNat by omega) (by omega) (by omega)
  have hbefore := collateral_edge hs
  have howes := debt_edge hs hdebt
  obtain ⟨left, hleft, hafter⟩ := collateralLeft_edge hs
  rw [hseized] at hleft
  obtain ⟨owed, howed, hdebtLeft⟩ : ∃ owed,
      owed + 3000000 = 10000000 * c.liquidationThresholdPct.toNat + 1 ∧
        (edgeLiquidation hs).debtLeft = owed * 10 ^ 12 := by
    have hpaid := debtLeft_edge hs hrepaid
    refine ⟨10000000 * c.liquidationThresholdPct.toNat + 1 - 3000000, by omega, ?_⟩
    omega
  have hedge : (edgeLiquidation hs).AtEdge := by
    have hprice : (edgeLiquidation hs).repayReserve.liquidity.marketPriceSf.toNat = 10 ^ 12 :=
      toNat_rateScale
    unfold SoleLiquidation.AtEdge
    rw [hbefore, howes, hprice]
    omega
  have hkept : (edgeLiquidation hs).NoWorse := hkeeps _ hedge (uncapped_edge hs hrepaid)
  unfold SoleLiquidation.NoWorse at hkept
  rw [hbefore, howes, hafter, hdebtLeft] at hkept
  -- the bonus takes more of the collateral than the repayment takes of the debt
  have hworse := lt_of_bonus hcap hleft howed
  generalize 10000000 * c.liquidationThresholdPct.toNat + 1 = all at hkept hworse
  have hscaled : 10 ^ 24 * (1000000000 * owed) ≤ 10 ^ 24 * ((left + 1) * all + 1000000000) :=
    calc 10 ^ 24 * (1000000000 * owed)
        = 1000000000 * 10 ^ 12 * (owed * 10 ^ 12) := by ring
      _ ≤ (left * 10 ^ 12 + 10 ^ 12) * (all * 10 ^ 12) + 1000000000 * 10 ^ 12 * 10 ^ 12 := hkept
      _ = 10 ^ 24 * ((left + 1) * all + 1000000000) := by ring
  exact absurd (Nat.le_of_mul_le_mul_left hscaled (by decide)) (Nat.not_le.mpr hworse)

end Above

/-! ## Exactly the configurations that keep health -/

theorem SoleLiquidation.active {c : ReserveConfig} (l : SoleLiquidation c) : c.isActive = true := by
  have hrun := liquidate_ok l.succeeds
  simp only [seize, accruePriced, bind_eq_ok, load_eq_ok, require_eq_ok, exists_const] at hrun
  obtain ⟨r, hr, _, ⟨-, r₁, hacc, -, ⟨⟩⟩, q, hq, -, ⟨hactive, -⟩, -⟩ := hrun
  obtain ⟨q₀, hq₀, hconfig, -⟩ := l.withdrawn
  -- the two reserves may be one account, which is then accrued first
  by_cases hsame : l.withdrawKey = l.repayKey
  · rw [hsame, store_self] at hq
    rw [hsame, hr] at hq₀
    cases hq
    cases hq₀
    rw [← hconfig, ← (Reserve.accrues_of_ok hacc).config]
    exact hactive
  · rw [store_of_ne _ _ hsame, hq₀] at hq
    cases hq
    rw [← hconfig]
    exact hactive

/-- Health is kept exactly when the bonus fits between the threshold and the whole value. -/
theorem keepsHealth_iff (c : ReserveConfig) : KeepsHealth c ↔ (c.isActive = true →
    (10000 + c.liquidationBonusPct.toNat) * c.liquidationThresholdPct.toNat ≤ 10 ^ 6) := by
  constructor
  · intro hkeeps hactive
    by_contra hcap
    exact not_keepsHealth hactive (Nat.lt_of_not_le hcap) hkeeps
  · intro hcap l hedge _
    exact l.noWorse hedge (hcap l.active)

/-- A bonus of ten percent at a threshold of ninety-five. -/
def generousConfig : ReserveConfig :=
  { (owedReserve (.key 14)).config with
    liquidationBonusPct := 1000
    liquidationThresholdPct := 95 }

/-- `validate` accepts it. -/
theorem not_forall_keepsHealth :
    ¬ ∀ c : ReserveConfig, c.validate = .ok () → KeepsHealth c := by
  intro hall
  exact not_keepsHealth (by decide) (by decide) (hall generousConfig (by decide))

-- the obligation of that configuration, from a refresh that finds it without values
example : refreshObligation (edgeReserves generousConfig) [.key 3, .key 4] ⟨9, 900⟩
    (edgeObligation 0 (950000001 * rateScale)) =
      .ok (edgeObligation (950000000 * rateScale) (950000001 * rateScale)) := by decide +kernel

end Ledger

end VeilVault
