/-
# VeilVault.Obligation.Health — four gates, two formulas.

`health_factor` divides the deposit value by the borrow value; its doc comment and every caller
read the quotient as scaled by `RATE_SCALE`.  `borrow` compares the two values directly.  On the
obligations whose tables are packed and whose sums fit, this file computes all four gates from the
two sums `A` and `B`, and says exactly when the quotient is the documented one and when the gates
agree: a position with `B ≤ A < B * RATE_SCALE` is solvent for `borrow` and insolvent for
`withdraw_collateral` and `liquidate`.
-/
import VeilVault.Ledger.Position
import VeilVault.Obligation.Prefix

namespace VeilVault

open Kit

namespace Obligation

variable {o : Obligation}

/-! ## The two sums -/

/-- `A`: cached value of the active deposits. -/
def depositSum (o : Obligation) : ℕ := ((depositValues o.deposits.toList).map BitVec.toNat).sum

/-- `B`: cached value of the active borrows. -/
def borrowSum (o : Obligation) : ℕ := ((borrowValues o.borrows.toList).map BitVec.toNat).sum

/-- Active slots are the counted prefixes, and both sums fit in `u128`. -/
structure Summable (o : Obligation) : Prop where
  packedDeposits : depositLayout.Packed o.deposits o.depositsCount.toNat
  packedBorrows : borrowLayout.Packed o.borrows o.borrowsCount.toNat
  depositsCount_le : o.depositsCount.toNat ≤ 8
  borrowsCount_le : o.borrowsCount.toNat ≤ 8
  depositSum_lt : o.depositSum < 2 ^ 128
  borrowSum_lt : o.borrowSum < 2 ^ 128

theorem Summable.depositValues_counted (h : o.Summable) :
    depositValues (o.deposits.toList.take o.depositsCount.toNat) =
      depositValues o.deposits.toList := by
  rw [depositValues, filter_take_of_counted _ _ fun i hi =>
    h.packedDeposits.counted i (depositLayout_live.mpr hi), depositValues]

theorem Summable.borrowValues_counted (h : o.Summable) :
    borrowValues (o.borrows.toList.take o.borrowsCount.toNat) = borrowValues o.borrows.toList := by
  rw [borrowValues, filter_take_of_counted _ _ fun i hi =>
    h.packedBorrows.counted i (borrowLayout_live.mpr hi), borrowValues]

/-- The saturating sum of values that fit is their sum. -/
theorem toNat_saturatingSum_of_lt {xs : List U128} (h : (xs.map BitVec.toNat).sum < 2 ^ 128) :
    (saturatingSum xs).toNat = (xs.map BitVec.toNat).sum := by
  rw [toNat_saturatingSum]
  omega

/-- The checked sum of values that fit exists. -/
theorem checkedSum_of_lt {xs : List U128} (h : (xs.map BitVec.toNat).sum < 2 ^ 128) :
    ∃ s : U128, s.toNat = (xs.map BitVec.toNat).sum ∧ checkedSum xs = some s :=
  ⟨BitVec.ofNatLT _ h, BitVec.toNat_ofNatLT _ h,
    checkedSum_eq_some.mpr (BitVec.toNat_ofNatLT _ h)⟩

/-! ## The gates, from the sums -/

/-- `health_factor` is the unscaled quotient. -/
theorem Summable.healthFactor (h : o.Summable) :
    (o.borrowSum = 0 ∧ o.healthFactor = .ok none) ∨
    (o.borrowSum ≠ 0 ∧ ∃ hf : U128, hf.toNat = o.depositSum / o.borrowSum ∧
      o.healthFactor = .ok (some hf)) := by
  have hB : (saturatingSum (borrowValues o.borrows.toList)).toNat = o.borrowSum :=
    toNat_saturatingSum_of_lt h.borrowSum_lt
  have hA : (saturatingSum (depositValues o.deposits.toList)).toNat = o.depositSum :=
    toNat_saturatingSum_of_lt h.depositSum_lt
  have hdef : o.healthFactor =
      if saturatingSum (borrowValues o.borrows.toList) = 0 then .ok none
      else .ok (checkedDiv (saturatingSum (depositValues o.deposits.toList))
        (saturatingSum (borrowValues o.borrows.toList))) := by
    simp only [Obligation.healthFactor, countedBorrows_of_le h.borrowsCount_le, ok_bind,
      h.borrowValues_counted, countedDeposits_of_le h.depositsCount_le, h.depositValues_counted]
    rfl
  by_cases hzero : saturatingSum (borrowValues o.borrows.toList) = 0
  · refine .inl ⟨by rw [← hB, hzero]; rfl, ?_⟩
    rw [hdef, if_pos hzero]
  · have hpos := ne_zero_iff_toNat_pos.mpr hzero
    rw [hB] at hpos
    refine .inr ⟨hpos.ne', ?_⟩
    cases hdiv : checkedDiv (saturatingSum (depositValues o.deposits.toList))
        (saturatingSum (borrowValues o.borrows.toList)) with
    | none =>
        have := checkedDiv_eq_none.mp hdiv
        omega
    | some hf =>
        refine ⟨hf, ?_, by rw [hdef, if_neg hzero, hdiv]⟩
        rw [(checkedDiv_eq_some.mp hdiv).2, hA, hB]

/-- `is_healthy` asks for a `RATE_SCALE`-fold cover. -/
theorem Summable.isHealthy (h : o.Summable) :
    o.isHealthy = .ok (decide (o.borrowSum = 0 ∨ o.borrowSum * 10 ^ 12 ≤ o.depositSum)) := by
  rcases h.healthFactor with ⟨hB, hhf⟩ | ⟨hB, hf, hval, hhf⟩ <;>
    rw [Obligation.isHealthy, hhf, ok_bind]
  · simp only [hB, true_or, decide_true]
    rfl
  · have hiff : hf ≥ rateScale ↔ o.borrowSum = 0 ∨ o.borrowSum * 10 ^ 12 ≤ o.depositSum := by
      rw [ge_iff_le, BitVec.le_def, toNat_rateScale, hval,
        Nat.le_div_iff_mul_le (Nat.pos_of_ne_zero hB), Nat.mul_comm (10 ^ 12)]
      exact ⟨.inr, fun h => h.resolve_left hB⟩
    simp only [← hiff]
    rfl

/-- `liquidate`'s gate rejects with `ObligationHealthy` exactly the positions `is_healthy` calls
healthy. -/
theorem Summable.liquidationGate (h : o.Summable) :
    o.liquidationGate = .error (.lending .obligationHealthy) ↔
      o.borrowSum = 0 ∨ o.borrowSum * 10 ^ 12 ≤ o.depositSum := by
  rw [Obligation.liquidationGate, h.isHealthy, ok_bind]
  by_cases hc : o.borrowSum = 0 ∨ o.borrowSum * 10 ^ 12 ≤ o.depositSum
  · simp only [hc, decide_true, iff_true]
    rfl
  · simp only [hc, decide_false, iff_false]
    exact fun he => by cases he

/-- Debts worth more than the deposits open the position to liquidation. -/
theorem Summable.liquidationGate_of_lt (h : o.Summable) (hlt : o.depositSum < o.borrowSum) :
    o.liquidationGate = .ok () := by
  have hunhealthy : ¬ (o.borrowSum = 0 ∨ o.borrowSum * 10 ^ 12 ≤ o.depositSum) := by omega
  rw [Obligation.liquidationGate, h.isHealthy, ok_bind, decide_eq_false hunhealthy]
  rfl

/-- `withdraw_collateral`'s check passes on the same positions. -/
theorem Summable.withdrawHealthCheck (h : o.Summable) :
    o.withdrawHealthCheck = .ok () ↔
      o.borrowSum = 0 ∨ o.borrowSum * 10 ^ 12 ≤ o.depositSum := by
  rcases h.healthFactor with ⟨hB, hhf⟩ | ⟨hB, hf, hval, hhf⟩ <;>
    rw [Obligation.withdrawHealthCheck, hhf, ok_bind]
  · exact ⟨fun _ => .inl hB, fun _ => rfl⟩
  · rw [require_eq_ok, ge_iff_le, BitVec.le_def, toNat_rateScale, hval,
      Nat.le_div_iff_mul_le (Nat.pos_of_ne_zero hB), Nat.mul_comm (10 ^ 12)]
    exact ⟨.inr, fun h => h.resolve_left hB⟩

/-- `borrow`'s check, for no new debt, compares the two sums. -/
theorem Summable.inlineHealthCheck (h : o.Summable) (price : U128) :
    o.inlineHealthCheck 0 price = .ok () ↔ o.borrowSum ≤ o.depositSum := by
  obtain ⟨A, hA, hsumA⟩ := checkedSum_of_lt h.depositSum_lt
  obtain ⟨B, hB, hsumB⟩ := checkedSum_of_lt h.borrowSum_lt
  have hmul : checkedMul (U64.toU128 0) price = some 0 := by
    rw [checkedMul_eq_some]
    simp
  have hadd : checkedAdd B 0 = some B := by
    rw [checkedAdd_eq_some]
    simp
  simp only [Obligation.inlineHealthCheck, countedDeposits_of_le h.depositsCount_le, ok_bind,
    h.depositValues_counted, hsumA, countedBorrows_of_le h.borrowsCount_le, h.borrowValues_counted,
    hsumB, orAbort, orFail_some, hmul, okOr_some, hadd, require_eq_ok, ge_iff_le, BitVec.le_def]
  rw [hA, hB, depositSum, borrowSum]

/-! ## What a passed gate bounds -/

theorem sum_borrowValues (bs : List ObligationLiquidity) :
    ((borrowValues bs).map BitVec.toNat).sum =
      ((bs.filter (·.isActive)).map fun b => b.marketValueSf.toNat).sum := by
  rw [borrowValues, List.map_map]
  rfl

theorem sum_depositValues (cs : List ObligationCollateral) :
    ((depositValues cs).map BitVec.toNat).sum =
      ((cs.filter (·.isActive)).map fun c => c.marketValueSf.toNat).sum := by
  rw [depositValues, List.map_map]
  rfl

theorem borrowSum_eq (o : Obligation) : o.borrowSum =
    ∑ i : Fin maxBorrowCountInReserve,
      if o.borrows[i].isActive then o.borrows[i].marketValueSf.toNat else 0 := by
  rw [borrowSum, sum_borrowValues, sum_filter_toList]

theorem depositSum_eq (o : Obligation) : o.depositSum =
    ∑ i : Fin maxDepositsCountInReserve,
      if o.deposits[i].isActive then o.deposits[i].marketValueSf.toNat else 0 := by
  rw [depositSum, sum_depositValues, sum_filter_toList]

/-- A deposit reader sees at most everything. -/
theorem sum_countedDeposits_le {cs : List ObligationCollateral} (h : o.countedDeposits = .ok cs) :
    ((depositValues cs).map BitVec.toNat).sum ≤ o.depositSum := by
  unfold countedDeposits at h
  split at h
  · cases h
    rw [depositSum, sum_depositValues, sum_depositValues]
    exact sum_filter_take_le _ _ _ _
  · cases h

/-- When every live debt is counted, a borrow reader sees all of them. -/
theorem sum_countedBorrows {bs : List ObligationLiquidity}
    (hcount : borrowLayout.Counted o.borrows o.borrowsCount.toNat)
    (h : o.countedBorrows = .ok bs) :
    ((borrowValues bs).map BitVec.toNat).sum = o.borrowSum := by
  unfold countedBorrows at h
  split at h
  · cases h
    rw [borrowSum, sum_borrowValues, sum_borrowValues,
      filter_take_of_counted _ _ fun i hi => hcount i (borrowLayout_live.mpr hi)]
  · cases h

theorem inlineHealthCheck_le {a : U64} {price : U128}
    (hcount : borrowLayout.Counted o.borrows o.borrowsCount.toNat)
    (h : o.inlineHealthCheck a price = .ok ()) :
    o.borrowSum + a.toNat * price.toNat ≤ o.depositSum := by
  simp only [inlineHealthCheck, bind_eq_ok, orAbort_eq_ok, okOr_eq_ok, checkedSum_eq_some,
    checkedMul_eq_some, checkedAdd_eq_some, require_eq_ok, ge_iff_le, BitVec.le_def,
    toNat_toU128] at h
  obtain ⟨cs, hcs, A, hA, bs, hbs, B, hB, N, hN, T, hT, hle⟩ := h
  have hAle := sum_countedDeposits_le hcs
  rw [sum_countedBorrows hcount hbs] at hB
  omega

/-- When every live deposit is counted, a deposit reader sees all of them. -/
theorem sum_countedDeposits {cs : List ObligationCollateral}
    (hcount : depositLayout.Counted o.deposits o.depositsCount.toNat)
    (h : o.countedDeposits = .ok cs) :
    ((depositValues cs).map BitVec.toNat).sum = o.depositSum := by
  unfold countedDeposits at h
  split at h
  · cases h
    rw [depositSum, sum_depositValues, sum_depositValues,
      filter_take_of_counted _ _ fun i hi => hcount i (depositLayout_live.mpr hi)]
  · cases h

/-- A borrow turned down as unhealthy is not covered. -/
theorem lt_of_unhealthy {a : U64} {price : U128}
    (hdeposits : depositLayout.Counted o.deposits o.depositsCount.toNat)
    (hborrows : borrowLayout.Counted o.borrows o.borrowsCount.toNat)
    (h : o.inlineHealthCheck a price = .error (.lending .unhealthyObligation)) :
    o.depositSum < o.borrowSum + a.toNat * price.toNat := by
  have hcounted : o.countedDeposits ≠ .error (.lending .unhealthyObligation) := by
    unfold countedDeposits
    split <;> nofun
  have hcounted' : o.countedBorrows ≠ .error (.lending .unhealthyObligation) := by
    unfold countedBorrows
    split <;> nofun
  simp only [inlineHealthCheck, bind_eq_error, orAbort_eq_ok, orAbort_eq_error, okOr_eq_ok,
    okOr_eq_error, require_eq_error, checkedSum_eq_some, checkedMul_eq_some, checkedAdd_eq_some,
    ge_iff_le, BitVec.le_def, toNat_toU128, hcounted, hcounted', reduceCtorEq, and_false,
    false_or, Fault.lending.injEq, and_true] at h
  obtain ⟨cs, hcs, A, hA, bs, hbs, B, hB, N, hN, T, hT, hlt⟩ := h
  rw [sum_countedDeposits hdeposits hcs] at hA
  rw [sum_countedBorrows hborrows hbs] at hB
  omega

/-- Saturation never lets an insolvent position through. -/
theorem withdrawHealthCheck_le (hcount : borrowLayout.Counted o.borrows o.borrowsCount.toNat)
    (h : o.withdrawHealthCheck = .ok ()) : o.borrowSum ≤ o.depositSum := by
  simp only [withdrawHealthCheck, bind_eq_ok] at h
  obtain ⟨hf, hhf, hgate⟩ := h
  simp only [healthFactor, bind_eq_ok] at hhf
  obtain ⟨bs, hbs, hhf⟩ := hhf
  have hB := toNat_saturatingSum (borrowValues bs)
  rw [sum_countedBorrows hcount hbs] at hB
  split at hhf
  case isTrue hzero =>
    rw [hzero] at hB
    have : (0 : U128).toNat = 0 := rfl
    omega
  case isFalse hpos =>
    simp only [bind_eq_ok, pure_eq_ok] at hhf
    obtain ⟨cs, hcs, rfl⟩ := hhf
    have hA := toNat_saturatingSum (depositValues cs)
    have hAle := sum_countedDeposits_le hcs
    cases hdiv : checkedDiv (saturatingSum (depositValues cs))
        (saturatingSum (borrowValues bs)) with
    | none =>
        exact absurd (checkedDiv_eq_none.mp hdiv) (ne_zero_iff_toNat_pos.mpr hpos).ne'
    | some q =>
        rw [hdiv] at hgate
        simp only [require_eq_ok, ge_iff_le, BitVec.le_def, toNat_rateScale] at hgate
        obtain ⟨-, hq⟩ := checkedDiv_eq_some.mp hdiv
        have hBpos := ne_zero_iff_toNat_pos.mpr hpos
        rw [hq, Nat.le_div_iff_mul_le hBpos] at hgate
        omega

/-! ## Agreement -/

/-- The health factor is the documented scaled ratio. -/
def HealthFactorScaled (o : Obligation) : Prop :=
  (o.healthFactor = .ok none ↔ o.borrowSum = 0) ∧
  (o.borrowSum ≠ 0 → ∃ hf : U128, o.healthFactor = .ok (some hf) ∧
    hf.toNat = o.depositSum * 10 ^ 12 / o.borrowSum)

/-- All four gates draw the line at `B ≤ A`. -/
def GatesAgree (o : Obligation) : Prop :=
  (o.isHealthy = .ok true ↔ o.borrowSum ≤ o.depositSum) ∧
  (∀ price, o.liquidationGate = .error (.lending .obligationHealthy) ↔
    o.inlineHealthCheck 0 price = .ok ()) ∧
  (∀ price, o.withdrawHealthCheck = .ok () ↔ o.inlineHealthCheck 0 price = .ok ())

/-- A quotient is its own thousand-billionth only when it is zero. -/
theorem div_eq_scaled_div_iff {a b : ℕ} (hb : b ≠ 0) :
    a / b = a * 10 ^ 12 / b ↔ a * 10 ^ 12 < b := by
  have hpos := Nat.pos_of_ne_zero hb
  constructor
  · intro h
    by_contra hge
    have hone : 1 ≤ a * 10 ^ 12 / b := (Nat.one_le_div_iff hpos).mpr (Nat.le_of_not_lt hge)
    have hmul : a / b * 10 ^ 12 ≤ a * 10 ^ 12 / b := by
      rw [Nat.le_div_iff_mul_le hpos, Nat.mul_right_comm]
      exact Nat.mul_le_mul_right _ (Nat.div_mul_le_self a b)
    omega
  · intro h
    rw [Nat.div_eq_of_lt h, Nat.div_eq_of_lt (by omega)]

/-- The gates agree exactly outside the band between a one-fold and a `RATE_SCALE`-fold cover. -/
theorem Summable.gatesAgree_iff (h : o.Summable) :
    o.GatesAgree ↔
      o.borrowSum = 0 ∨ o.depositSum < o.borrowSum ∨ o.borrowSum * 10 ^ 12 ≤ o.depositSum := by
  have hinline := h.inlineHealthCheck
  unfold GatesAgree
  simp only [h.isHealthy, h.liquidationGate, h.withdrawHealthCheck, hinline, Except.ok.injEq,
    decide_eq_true_eq]
  constructor
  · rintro ⟨hiff, -, -⟩
    by_contra hcon
    have := hiff.mpr (by omega)
    omega
  · intro hband
    refine ⟨?_, fun _ => ?_, fun _ => ?_⟩ <;> omega

theorem Summable.healthFactorScaled_iff (h : o.Summable) :
    o.HealthFactorScaled ↔ o.borrowSum = 0 ∨ o.depositSum * 10 ^ 12 < o.borrowSum := by
  unfold HealthFactorScaled
  rcases h.healthFactor with ⟨hB, hhf⟩ | ⟨hB, hf, hval, hhf⟩ <;> rw [hhf]
  · simp [hB]
  · simp only [hB, reduceCtorEq, iff_self, Except.ok.injEq, true_and, ne_eq, not_false_eq_true,
      forall_const, false_or, Option.some.injEq, exists_eq_left', hval]
    exact div_eq_scaled_div_iff hB

/-- On packed tables with sums that fit, the documented health factor and the agreement of the
gates hold together exactly for the debt-free and the practically worthless positions. -/
theorem scaled_and_gatesAgree_iff (o : Obligation) (h : o.Summable) :
    (o.HealthFactorScaled ∧ o.GatesAgree) ↔
      o.borrowSum = 0 ∨ o.depositSum * 10 ^ 12 < o.borrowSum := by
  rw [h.healthFactorScaled_iff, h.gatesAgree_iff]
  omega

/-- Collateral worth 5, debt worth 3. -/
def coveredObligation : Obligation :=
  { ((init (.key 1) (.key 2)).setDeposit 0
        { depositReserve := .key 3, depositedAmount := 1, marketValueSf := 5 }).setBorrow 0
      { ObligationLiquidity.init (.key 4) rateScale with
        borrowedAmountSf := rateScale, marketValueSf := 3 } with
    depositsCount := 1
    borrowsCount := 1 }

theorem coveredObligation_summable : coveredObligation.Summable where
  packedDeposits := by unfold Layout.Packed; decide
  packedBorrows := by unfold Layout.Packed; decide
  depositsCount_le := by decide
  borrowsCount_le := by decide
  depositSum_lt := by decide
  borrowSum_lt := by decide

theorem scaled_and_gatesAgree_iff_covered :
    (coveredObligation.HealthFactorScaled ∧ coveredObligation.GatesAgree) ↔
      coveredObligation.borrowSum = 0 ∨
        coveredObligation.depositSum * 10 ^ 12 < coveredObligation.borrowSum :=
  scaled_and_gatesAgree_iff coveredObligation coveredObligation_summable

/-- `borrow` accepts the position at `5 ≥ 3`; `health_factor` is 1, not `5 * RATE_SCALE / 3`, and
`is_healthy` fails. -/
theorem not_forall_scaled_and_gatesAgree :
    ¬ ∀ o : Obligation, o.Summable → o.HealthFactorScaled ∧ o.GatesAgree := by
  intro h
  have hA : coveredObligation.depositSum = 5 := by decide
  have hB : coveredObligation.borrowSum = 3 := by decide
  have hsum := coveredObligation_summable
  rcases hsum.gatesAgree_iff.mp (h _ hsum).2 with h0 | hlt | hge <;> omega

end Obligation

end VeilVault
