/-
# VeilVault.Reserve.Terms — limits, and terms that change.

A deposit compares the total it leads to with its limit, a borrow the debt it starts from: one unit
below the limit, a single borrow can take everything the vault has.  New terms are written without
an accrual, so the slots since the last one are charged on them later.
-/
import VeilVault.Reserve.Rounding

namespace VeilVault

open Kit

namespace Reserve

variable {r r₁ r' : Reserve} {a c s : U64}

/-! ## Limits -/

/-- After a deposit the total is within its limit. -/
theorem assets_le_depositLimit (hd : r.depositLiquidity a = .ok (r₁, c)) :
    r₁.pool.assets ≤ r₁.config.depositLimit.toNat := by
  have hlimit := within_depositLimit hd
  obtain ⟨hassets, -⟩ := pool_depositLiquidity hd
  obtain ⟨-, -, v, n, -, -, rfl⟩ := depositLiquidity_ok hd
  rw [hassets]
  exact hlimit

theorem borrowLimitCrossed_eq_false : r.borrowLimitCrossed = false ↔
    r.liquidity.borrowedAmountSf.toNat < r.config.borrowLimit.toNat := by
  rw [borrowLimitCrossed, decide_eq_false_iff_not, ge_iff_le, BitVec.le_def, toNat_toU128,
    Nat.not_le]

/-- A borrow keeps the debt within its limit exactly when it is refused or the sum is within. -/
theorem borrow_within_limit_iff (r : Reserve) (a : U64) :
    (∀ r', r.borrow a = .ok r' →
      r'.liquidity.borrowedAmountSf ≤ r'.config.borrowLimit.toU128) ↔
    (r.config.borrowLimit.toNat ≤ r.liquidity.borrowedAmountSf.toNat ∨
      r.liquidity.availableAmount < a ∨
      r.liquidity.borrowedAmountSf.toNat + a.toNat ≤ r.config.borrowLimit.toNat) := by
  rw [BitVec.lt_def]
  constructor
  · intro hall
    by_contra hopen
    obtain ⟨hbelow, hroom, hover⟩ : r.liquidity.borrowedAmountSf.toNat <
        r.config.borrowLimit.toNat ∧ a.toNat ≤ r.liquidity.availableAmount.toNat ∧
        r.config.borrowLimit.toNat < r.liquidity.borrowedAmountSf.toNat + a.toNat := by omega
    -- below a limit of 64 bits the sum fits, so nothing else can refuse the borrow
    have hlimit := r.config.borrowLimit.isLt
    have hword := a.isLt
    have hfit : r.liquidity.borrowedAmountSf.toNat + a.toNat < 2 ^ 128 := by omega
    obtain ⟨v, hv, -⟩ := exists_checkedSub (x := r.liquidity.availableAmount) (y := a) hroom
    have hb := borrow_ok.mpr ⟨borrowLimitCrossed_eq_false.mpr hbelow, _,
      ReserveLiquidity.borrow_ok.mpr ⟨v, BitVec.ofNatLT _ hfit, checkedSub_eq_some.mp hv,
        BitVec.toNat_ofNatLT _ hfit, rfl⟩, rfl⟩
    have hle := BitVec.le_def.mp (hall _ hb)
    rw [toNat_toU128] at hle
    simp only [BitVec.toNat_ofNatLT] at hle
    omega
  · intro hwhen r' hb
    obtain ⟨hopen, l', hl, rfl⟩ := borrow_ok.mp hb
    obtain ⟨v, d, hv, hd, rfl⟩ := ReserveLiquidity.borrow_ok.mp hl
    have hbelow := borrowLimitCrossed_eq_false.mp hopen
    rw [BitVec.le_def, toNat_toU128]
    simp only
    omega

/-- A million deposited, with a smaller limit on the debt. -/
def roomyReserve : Reserve :=
  { plainReserve with
    liquidity := { plainReserve.liquidity with availableAmount := 1000000 }
    collateral := { plainReserve.collateral with mintTotalSupply := 1000000 }
    config := { plainReserve.config with borrowLimit := 800000 } }

/-- The first borrow takes the vault, a quarter more than the limit. -/
theorem not_forall_borrow_within_limit : ¬ ∀ (r r' : Reserve) (a : U64), r.borrow a = .ok r' →
    r'.liquidity.borrowedAmountSf ≤ r'.config.borrowLimit.toU128 := by
  intro hall
  have hrun : ((roomyReserve.borrow 1000000).toOption.any fun r' =>
      r'.config.borrowLimit.toU128 < r'.liquidity.borrowedAmountSf) = true := by decide
  obtain ⟨r', hb, hover⟩ := toOption_any.mp hrun
  have hle := BitVec.le_def.mp (hall roomyReserve r' 1000000 hb)
  have hlt := BitVec.lt_def.mp (of_decide_eq_true hover)
  exact absurd hle (Nat.not_le.mpr hlt)

/-! ## New terms -/

section Update

variable {newConfig : InitReserveConfigParams}

/-- Whatever slots had passed, the next accrual charges them all on the new terms. -/
theorem borrowed_after_updateConfig {bps : U16} (h : r.updateConfig newConfig = .ok r')
    (hbps : r'.currentBorrowRate = .ok bps) (hacc : r'.accrueInterest s = .ok r₁) :
    r₁.liquidity.borrowedAmountSf.toNat = r.liquidity.borrowedAmountSf.toNat +
      ReserveLiquidity.periodRate bps.toNat (s.toNat - r.lastUpdateSlot.toNat) *
        r.liquidity.borrowedAmountSf.toNat / 10 ^ 12 := by
  obtain ⟨hliquidity, -, hslot⟩ := updateConfig_ok h
  rw [(accrueInterest_interestAt hacc).1, interestAt_of_ok hbps, hliquidity, hslot]

/-- Writing new terms leaves what an accrual on the old ones would have left exactly when no slot
has passed since the last accrual. -/
theorem updateConfig_accrued_iff (h : r.updateConfig newConfig = .ok r') (s : U64) :
    (∃ r₁, r.accrueInterest s = .ok r₁ ∧ r'.liquidity = r₁.liquidity ∧
      r'.lastUpdateSlot = r₁.lastUpdateSlot) ↔ s ≤ r.lastUpdateSlot := by
  obtain ⟨hliquidity, -, hslot⟩ := updateConfig_ok h
  rw [BitVec.le_def]
  constructor
  · rintro ⟨r₁, hacc, -, hsame⟩
    -- an accrual stamps the reserve with its slot, and the update does not
    have hstamp := (accrues_of_ok hacc).slot_le
    rw [← hsame, hslot] at hstamp
    exact hstamp
  · intro hs
    exact ⟨r, accrueInterest_current hs, hliquidity, hslot⟩

theorem updateConfig_accrued_iff_lent : ∃ r' r₁ : Reserve,
    lentReserve.updateConfig steepParams = .ok r' ∧ lentReserve.accrueInterest 7 = .ok r₁ ∧
      r'.liquidity = r₁.liquidity ∧ r'.lastUpdateSlot = r₁.lastUpdateSlot := by
  have hok : (lentReserve.updateConfig steepParams).toOption.any (fun _ => true) = true := by
    decide
  obtain ⟨r', h, -⟩ := toOption_any.mp hok
  obtain ⟨r₁, hacc, hliquidity, hslot⟩ :=
    (updateConfig_accrued_iff h 7).mpr (by decide)
  exact ⟨r', r₁, h, hacc, hliquidity, hslot⟩

/-- A year at the old rate becomes a year at the new one. -/
theorem not_forall_updateConfig_accrued : ¬ ∀ (r r' : Reserve) (s : U64)
    (newConfig : InitReserveConfigParams), r.updateConfig newConfig = .ok r' →
    ∃ r₁, r.accrueInterest s = .ok r₁ ∧ r'.liquidity = r₁.liquidity ∧
      r'.lastUpdateSlot = r₁.lastUpdateSlot := by
  intro hall
  have hrun : ((lentReserve.updateConfig steepParams).toOption.any fun r' =>
      (lentReserve.accrueInterest 63072007).toOption.any fun r₁ =>
        r'.liquidity ≠ r₁.liquidity) = true := by decide
  obtain ⟨r', h, hrun⟩ := toOption_any.mp hrun
  obtain ⟨r₁, hacc, hne⟩ := toOption_any.mp hrun
  obtain ⟨r₂, hacc', hsame, -⟩ := hall lentReserve r' 63072007 steepParams h
  rw [hacc] at hacc'
  cases hacc'
  exact of_decide_eq_true hne hsame

end Update

end Reserve

end VeilVault
