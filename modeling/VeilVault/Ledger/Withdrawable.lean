/-
# VeilVault.Ledger.Withdrawable — when collateral can be taken out.

`withdraw_collateral` scales the slot's cached value down before it takes the cTokens: value times
what is left, over what was deposited.  The value already carries amount, price and `RATE_SCALE`, so
the product leaves `u128` on deposits that a refresh values without trouble.  Nothing else in the
instruction overflows, and without debt nothing else fails.
-/
import VeilVault.Ledger.Decimals

namespace VeilVault

open Kit Kit.Outcome

namespace Obligation

variable {o : Obligation}

/-! ## The health check -/

theorem withdrawHealthCheck_ne_mathOverflow (o : Obligation) :
    o.withdrawHealthCheck ≠ .error (.lending .mathOverflow) := by
  have hborrows : o.countedBorrows ≠ .error (.lending .mathOverflow) := by
    unfold countedBorrows
    split <;> nofun
  have hdeposits : o.countedDeposits ≠ .error (.lending .mathOverflow) := by
    unfold countedDeposits
    split <;> nofun
  intro h
  simp only [withdrawHealthCheck, bind_eq_error] at h
  rcases h with hfactor | ⟨hf, -, hgate⟩
  · simp only [healthFactor, bind_eq_error] at hfactor
    rcases hfactor with hb | ⟨bs, -, hrest⟩
    · exact hborrows hb
    · split at hrest
      case isTrue => cases hrest
      case isFalse =>
        rcases bind_eq_error.mp hrest with hd | ⟨cs, -, hlast⟩
        · exact hdeposits hd
        · cases hlast
  · cases hf with
    | none => cases hgate
    | some hf =>
        obtain ⟨-, herr⟩ := require_eq_error.mp hgate
        cases herr

/-- A position without an active borrow passes. -/
theorem withdrawHealthCheck_of_debtFree (hcount : o.borrowsCount.toNat ≤ maxBorrowCountInReserve)
    (h : ∀ j : Fin maxBorrowCountInReserve, o.borrows[j].isActive = false) :
    o.withdrawHealthCheck = .ok () := by
  have hnone : borrowValues (o.borrows.toList.take o.borrowsCount.toNat) = [] := by
    rw [borrowValues, List.map_eq_nil_iff, List.filter_eq_nil_iff]
    intro b hb
    obtain ⟨j, hj, rfl⟩ := List.mem_iff_getElem.mp (List.mem_of_mem_take hb)
    rw [Vector.length_toList] at hj
    rw [Vector.getElem_toList]
    exact Bool.eq_false_iff.mp (h ⟨j, hj⟩)
  rw [withdrawHealthCheck, healthFactor, countedBorrows_of_le hcount, ok_bind, hnone]
  rfl

end Obligation

namespace Ledger

variable {reserves : Pubkey → Option Reserve} {accounts : List Pubkey} {clock now : Clock}
  {market : LendingMarket} {key : Pubkey} {o : Obligation} {r : Reserve} {a : U64}
  {i : Fin maxDepositsCountInReserve}

/-! ## The instruction -/

/-- Past its checks, a withdrawal overflows in the scaling, or goes on to the health check with the
debts as they were. -/
theorem withdrawCollateral_cases (hpaused : market.isPaused = false) (ha : 0 < a)
    (hfresh : o.lastUpdate.isSlotStale now.slot = false) (hf : o.findDeposit key = .ok i)
    (hle : a ≤ o.deposits[i].depositedAmount) :
    let product := o.deposits[i].marketValueSf.toNat *
      (o.deposits[i].depositedAmount.toNat - a.toNat)
    (2 ^ 128 ≤ product ∧
      withdrawCollateral market now key o a = .error (.lending .mathOverflow)) ∨
    (product < 2 ^ 128 ∧ ∃ o₁ : Obligation,
      o₁.borrows = o.borrows ∧ o₁.borrowsCount = o.borrowsCount ∧
      withdrawCollateral market now key o a = o₁.withdrawHealthCheck >>= fun _ => .ok o₁) := by
  intro product
  have hpos : 0 < a.toNat := BitVec.lt_def.mp ha
  have hle' : a.toNat ≤ o.deposits[i].depositedAmount.toNat := BitVec.le_def.mp hle
  obtain ⟨left, hsub, hleft⟩ : ∃ left,
      checkedSub o.deposits[i].depositedAmount.toU128 a.toU128 = some left ∧
        left.toNat = o.deposits[i].depositedAmount.toNat - a.toNat := by
    rw [← toNat_toU128, ← toNat_toU128]
    apply exists_checkedSub
    rwa [toNat_toU128, toNat_toU128]
  have hproduct : product = o.deposits[i].marketValueSf.toNat * left.toNat := by rw [hleft]
  rw [hproduct]
  -- the divisor is what was deposited, and that is at least the amount
  have hdivisor : (U128.max o.deposits[i].depositedAmount.toU128 1).toNat ≠ 0 := by
    rw [toNat_u128_max, toNat_toU128]
    omega
  simp only [withdrawCollateral, require_pos hpaused, require_pos ha, require_pos hfresh, hf,
    ok_bind, hsub, okOr_some]
  -- the scaling multiplies before it divides, so the product decides
  cases hm : checkedMul o.deposits[i].marketValueSf left with
  | none =>
      left
      exact ⟨checkedMul_eq_none.mp hm, rfl⟩
  | some m =>
      right
      obtain ⟨v, hv, -⟩ := exists_checkedDiv (x := m) hdivisor
      have hfit : o.deposits[i].marketValueSf.toNat * left.toNat < 2 ^ 128 := by
        rw [← checkedMul_eq_some.mp hm]
        exact m.isLt
      -- the slot now carries the scaled value, and still the whole amount
      let o₁ := o.setDeposit i { o.deposits[i] with marketValueSf := v }
      have hslot : o₁.deposits[i].depositedAmount = o.deposits[i].depositedAmount := by
        rw [Obligation.setDeposit_deposits, getElem_set_fin_self]
      have hf₁ : o₁.findDeposit key = .ok i :=
        Obligation.findDeposit_setDeposit hf (Obligation.findDeposit_eq_ok.mp hf).1
      obtain ⟨o₂, hwd, hborrows, hcount⟩ := Obligation.exists_withdraw hf₁ ha (by rwa [hslot])
      refine ⟨hfit, o₂, hborrows, hcount, ?_⟩
      simp only [Option.bind_eq_bind, Option.bind_some, hv, okOr_some, ok_bind]
      show ((o₁.withdraw key a).commit >>= _) = _
      rw [hwd, ok_bind]
      rfl

/-! ## After a refresh -/

/-- The slot of `key` was valued by a refresh, at the price of the reserve `r`. -/
structure DepositPriced (reserves : Pubkey → Option Reserve) (accounts : List Pubkey)
    (clock : Clock) (key : Pubkey) (o : Obligation) (i : Fin maxDepositsCountInReserve)
    (r : Reserve) : Prop where
  refresh : ∃ o₀, refreshObligation reserves accounts clock o₀ = .ok o
  found : o.findDeposit key = .ok i
  active : o.deposits[i].isActive = true
  counted : i.val < o.depositsCount.toNat
  reserve : reserves key = some r
  price : r.liquidity.marketPriceSf ≠ 0

theorem DepositPriced.value (h : DepositPriced reserves accounts clock key o i r) :
    o.deposits[i].marketValueSf.toNat =
      r.quote.depositValue o.deposits[i].depositedAmount.toNat := by
  obtain ⟨o₀, hrefresh⟩ := h.refresh
  have heffect := refreshed hrefresh
  have hcounted : i.val < o₀.depositsCount.toNat := heffect.depositsCount ▸ h.counted
  have hkey := (Obligation.findDeposit_eq_ok.mp h.found).1
  exact ((heffect.deposits i).1 hcounted).value hkey (depositLayout_live.mpr h.active) h.reserve
    h.price

/-- A withdrawal from a slot a refresh has valued does not overflow, and succeeds when the position
is free of debt, exactly when the slot's value times what is left fits in `u128`. -/
theorem withdrawCollateral_fits_iff (h : DepositPriced reserves accounts clock key o i r)
    (hpaused : market.isPaused = false) (ha : 0 < a)
    (hfresh : o.lastUpdate.isSlotStale now.slot = false)
    (hle : a ≤ o.deposits[i].depositedAmount) :
    (withdrawCollateral market now key o a ≠ .error (.lending .mathOverflow) ∧
      ((∀ j : Fin maxBorrowCountInReserve, o.borrows[j].isActive = false) →
        ∃ o', withdrawCollateral market now key o a = .ok o')) ↔
    r.quote.depositValue o.deposits[i].depositedAmount.toNat *
      (o.deposits[i].depositedAmount.toNat - a.toNat) < 2 ^ 128 := by
  rw [← h.value]
  obtain ⟨o₀, hrefresh⟩ := h.refresh
  rcases withdrawCollateral_cases hpaused ha hfresh h.found hle with
    ⟨hover, herr⟩ | ⟨hfit, o₁, hborrows, hcount, hrun⟩
  · constructor
    · intro hok
      exact absurd herr hok.1
    · intro hfit
      exact absurd hfit (Nat.not_lt.mpr hover)
  · refine ⟨fun _ => hfit, fun _ => ⟨?_, ?_⟩⟩
    -- the only error left is the health check's, and that one does not overflow
    · intro herr
      rw [hrun, bind_eq_error] at herr
      rcases herr with hcheck | ⟨-, -, hlast⟩
      · exact Obligation.withdrawHealthCheck_ne_mathOverflow o₁ hcheck
      · cases hlast
    · intro hfree
      have hcount₁ : o₁.borrowsCount.toNat ≤ maxBorrowCountInReserve :=
        hcount ▸ borrowsCount_le_of_refresh hrefresh
      have hfree₁ : ∀ j : Fin maxBorrowCountInReserve, o₁.borrows[j].isActive = false := by
        rw [hborrows]
        exact hfree
      rw [hrun, Obligation.withdrawHealthCheck_of_debtFree hcount₁ hfree₁]
      exact ⟨o₁, rfl⟩

theorem depositPriced_valued : DepositPriced twoMints [.key 4] ⟨9, 900⟩ (.key 4) valuedObligation 0
    (dollarReserve (.key 14)) where
  refresh := ⟨unvaluedObligation, refreshObligation_unvalued⟩
  found := by decide +kernel
  active := by decide
  counted := by decide
  reserve := rfl
  price := by decide

theorem withdrawCollateral_fits_iff_valued :
    withdrawCollateral (.init (.key 1) 0) ⟨9, 900⟩ (.key 4) valuedObligation 400 ≠
      .error (.lending .mathOverflow) :=
  ((withdrawCollateral_fits_iff depositPriced_valued rfl (by decide) (by decide)
    (by decide)).mpr (by decide +kernel)).1

/-- A hundred million tokens of six decimals, at one dollar for an atomic unit. -/
def largeReserve : Reserve :=
  { dollarReserve (.key 14) with
    liquidity := { (dollarReserve (.key 14)).liquidity with availableAmount := 100000000000000 }
    config := { (dollarReserve (.key 14)).config with depositLimit := 100000000000000 }
    collateral :=
      { (dollarReserve (.key 14)).collateral with mintTotalSupply := 100000000000000 } }

/-- All of its cTokens as collateral, valued by a refresh, and no debt. -/
def largeObligation : Obligation :=
  { (Obligation.init (.key 1) (.key 2)).setDeposit 0
      { depositReserve := .key 4, depositedAmount := 100000000000000
        marketValueSf := 100000000000000 * rateScale } with
    depositsCount := 1
    lastUpdate := ⟨9, 900⟩ }

/-- Not even one cToken of it can be taken out. -/
theorem not_forall_withdrawCollateral_fits :
    ¬ ∀ (reserves : Pubkey → Option Reserve) (accounts : List Pubkey) (clock now : Clock)
      (market : LendingMarket) (key : Pubkey) (o : Obligation) (r : Reserve) (a : U64)
      (i : Fin maxDepositsCountInReserve),
      DepositPriced reserves accounts clock key o i r → market.isPaused = false → 0 < a →
      o.lastUpdate.isSlotStale now.slot = false →
      a ≤ o.deposits[i].depositedAmount →
      withdrawCollateral market now key o a ≠ .error (.lending .mathOverflow) ∧
        ((∀ j : Fin maxBorrowCountInReserve, o.borrows[j].isActive = false) →
          ∃ o', withdrawCollateral market now key o a = .ok o') := by
  intro hall
  have hpriced : DepositPriced (fun _ => some largeReserve) [.key 4] ⟨9, 900⟩ (.key 4)
      largeObligation 0 largeReserve := {
    refresh := ⟨largeObligation, by decide +kernel⟩
    found := by decide +kernel
    active := by decide
    counted := by decide
    reserve := rfl
    price := by decide }
  have hrun : withdrawCollateral (.init (.key 1) 0) ⟨9, 900⟩ (.key 4) largeObligation 1 =
      .error (.lending .mathOverflow) := by decide +kernel
  have hok := hall _ _ _ ⟨9, 900⟩ (.init (.key 1) 0) _ _ _ 1 _ hpriced rfl (by decide) (by decide)
    (by decide)
  exact hok.1 hrun

end Ledger

end VeilVault
