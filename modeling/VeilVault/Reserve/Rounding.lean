/-
# VeilVault.Reserve.Rounding — where a conversion loses more than a fraction of a unit.

A deposit checks the amount that comes in and not the cTokens that go out: below the price of one
cToken they are none.  A redemption multiplies and divides with checks and then casts: from `2 ^ 64`
on the payment loses its high bits.  In both cases the call succeeds, and the other holders keep the
difference.
-/
import VeilVault.Reserve.RoundTrip

namespace VeilVault

open Kit

namespace Reserve

variable {r r₁ r₂ : Reserve} {a c s : U64}

theorem Reachable.sound (h : r.Reachable) : Sound r := by
  obtain ⟨slot, market, key, mint, params, r₀, ops, hcreate, rfl⟩ := h
  exact (sound_create hcreate).run ops

/-! ## Deposits that mint nothing -/

/-- The interest that an accrual to slot `s` adds to the debt. -/
def interestAt (r : Reserve) (s : U64) : ℕ :=
  match r.currentBorrowRate with
  | .ok bps => ReserveLiquidity.periodRate bps.toNat (s.toNat - r.lastUpdateSlot.toNat) *
      r.liquidity.borrowedAmountSf.toNat / 10 ^ 12
  | .error _ => 0

/-- The total supply at slot `s`: what is there now and the interest, less the protocol's share. -/
def assetsAt (r : Reserve) (s : U64) : ℕ :=
  r.pool.assets + (r.interestAt s - r.interestAt s * r.config.protocolFee.toNat / 10000)

theorem interestAt_of_ok {bps : U16} (h : r.currentBorrowRate = .ok bps) : r.interestAt s =
    ReserveLiquidity.periodRate bps.toNat (s.toNat - r.lastUpdateSlot.toNat) *
      r.liquidity.borrowedAmountSf.toNat / 10 ^ 12 := by
  rw [interestAt, h]

/-- No interest without slots or without a rate. -/
theorem interestAt_eq_zero (h : s.toNat ≤ r.lastUpdateSlot.toNat ∨
    ∃ bps : U16, r.currentBorrowRate = .ok bps ∧ bps.toNat = 0) : r.interestAt s = 0 := by
  rcases h with hs | ⟨bps, hbps, hzero⟩
  · have hnone (bps : ℕ) :
        ReserveLiquidity.periodRate bps (s.toNat - r.lastUpdateSlot.toNat) = 0 := by
      rw [Nat.sub_eq_zero_of_le hs, ReserveLiquidity.periodRate, Nat.mul_zero, Nat.zero_mul]
    unfold interestAt
    split
    · rw [hnone, Nat.zero_mul, Nat.zero_div]
    · rfl
  · rw [interestAt_of_ok hbps, hzero, ReserveLiquidity.periodRate]
    simp only [Nat.zero_mul, Nat.zero_div]

/-- An accrual adds its interest to the debt, and the protocol's share of it to the fees. -/
theorem accrueInterest_interestAt (ha : r.accrueInterest s = .ok r₁) :
    r₁.liquidity.borrowedAmountSf.toNat =
      r.liquidity.borrowedAmountSf.toNat + r.interestAt s ∧
    r₁.fees = r.fees + r.interestAt s * r.config.protocolFee.toNat / 10000 := by
  have hstill (hzero : r.interestAt s = 0) : r.liquidity.borrowedAmountSf.toNat =
      r.liquidity.borrowedAmountSf.toNat + r.interestAt s ∧
      r.fees = r.fees + r.interestAt s * r.config.protocolFee.toNat / 10000 := by
    rw [hzero, Nat.zero_mul]
    exact ⟨rfl, rfl⟩
  rcases accrueInterest_ok ha with ⟨hs, rfl⟩ | ⟨-, bps, hbps, ⟨hzero, rfl⟩ | ⟨-, l', hl, rfl⟩⟩
  · exact hstill (interestAt_eq_zero (.inl hs))
  · exact hstill (interestAt_eq_zero (.inr ⟨bps, hbps, hzero⟩))
  · obtain ⟨-, -, -, d, i, f, hd, -, hf, rfl⟩ := ReserveLiquidity.accuredInterest_ok hl
    rw [toNat_saturatingSub, toNat_u16_toU64, ← interestAt_of_ok hbps] at hd hf
    rw [toNat_u16_toU64] at hf
    exact ⟨hd, hf⟩

/-- It brings the pool to its total at that slot. -/
theorem Sound.pool_accrueInterest (h : Sound r) (ha : r.accrueInterest s = .ok r₁) :
    r₁.pool = ⟨r.assetsAt s, r.pool.shares⟩ := by
  obtain ⟨hdebt, hfees⟩ := accrueInterest_interestAt ha
  have hkeep := accrues_of_ok ha
  -- the protocol takes a tenth at most, so the fees stay covered by the interest
  have hle := h.solvent
  have hshare : r.interestAt s * r.config.protocolFee.toNat ≤ r.interestAt s * 1000 :=
    Nat.mul_le_mul_left _ h.feeRate
  have hheld : r.held = r.liquidity.availableAmount.toNat +
    r.liquidity.borrowedAmountSf.toNat := rfl
  simp only [pool, assetsAt, hfees, SharePool.mk.injEq, hkeep.collateral, and_true]
  rw [held, hkeep.available, hdebt]
  omega

/-- The deposit instruction mints something exactly when it is the first one or pays at least for
one cToken. -/
theorem minted_pos_iff (hr : r.Reachable) (ha : 0 < a) (hacc : r.accrueInterest s = .ok r₁)
    (hd : r₁.depositLiquidity a = .ok (r₂, c)) :
    1 ≤ c.toNat ↔ (r.collateral.mintTotalSupply = 0 ∨
      r.assetsAt s ≤ a.toNat * r.collateral.mintTotalSupply.toNat) := by
  have hsound := hr.sound
  have h₁ := (hsound.accrueInterest hacc).sound
  have hpool := hsound.pool_accrueInterest hacc
  have hshares : r.pool.shares = r.collateral.mintTotalSupply.toNat := rfl
  have hnone : r.collateral.mintTotalSupply = 0 ↔ r.pool.shares = 0 := BitVec.toNat_inj.symm
  rw [hnone, ← hshares]
  rcases Nat.eq_zero_or_pos r₁.pool.shares with hzero | hpos
  · have hfirst := h₁.toSolvent.minted_first hzero hd
    rw [hpool] at hzero
    exact iff_of_true (hfirst ▸ BitVec.lt_def.mp ha) (.inl hzero)
  · have hassets : 0 < r₁.pool.assets := Nat.lt_of_lt_of_le hpos h₁.pool_solvent
    rw [h₁.toSolvent.minted hpos hd, SharePool.sharesFor, Nat.one_le_div_iff hassets]
    rw [hpool] at hpos ⊢
    simp only at hpos ⊢
    omega

theorem minted_pos_iff_accrued : ∃ (r₁ r₂ : Reserve) (c : U64),
    accruedReserve.accrueInterest 630720100 = .ok r₁ ∧ r₁.depositLiquidity 5 = .ok (r₂, c) ∧
      1 ≤ c.toNat := by
  have hok : ((accruedReserve.accrueInterest 630720100).toOption.any fun r₁ =>
      (r₁.depositLiquidity 5).toOption.any fun _ => true) = true := by decide
  obtain ⟨r₁, hacc, hok⟩ := toOption_any.mp hok
  obtain ⟨⟨r₂, c⟩, hd, -⟩ := toOption_any.mp hok
  have hiff := minted_pos_iff (reachable_plainReserve _) (by decide) hacc hd
  exact ⟨r₁, r₂, c, hacc, hd, hiff.mpr (.inr (by decide))⟩

/-- At 1139 units for 1000 cTokens, the next unit is taken for nothing. -/
theorem not_forall_minted_pos : ¬ ∀ (r r₁ r₂ : Reserve) (a c s : U64), r.Reachable → 0 < a →
    r.accrueInterest s = .ok r₁ → r₁.depositLiquidity a = .ok (r₂, c) → 1 ≤ c.toNat := by
  intro hall
  have hrun : ((accruedReserve.accrueInterest 630720100).toOption.any fun r₁ =>
      (r₁.depositLiquidity 1).toOption.any fun p => p.2.toNat = 0) = true := by decide
  obtain ⟨r₁, hacc, hrun⟩ := toOption_any.mp hrun
  obtain ⟨⟨r₂, c⟩, hd, hzero⟩ := toOption_any.mp hrun
  have hone := hall accruedReserve r₁ r₂ 1 c _ (reachable_plainReserve _) (by decide) hacc hd
  rw [of_decide_eq_true hzero] at hone
  exact absurd hone (by decide)

/-! ## Payments that lose their high bits -/

/-- A redemption pays the converted amount or fails exactly when the amount fits its word, the
product fits none, or what is left of the amount is more than the vault holds. -/
theorem redeemCollateral_pays_iff {t : U128} (hr : r.Reachable)
    (ht : r.liquidity.totalSupply = .ok t) (hc : c ≤ r.collateral.mintTotalSupply) :
    ((∀ r₁ l, r.redeemCollateral c = .ok (r₁, l) →
        l.toNat = c.toNat * t.toNat / r.collateral.mintTotalSupply.toNat ∧
        r₁.liquidity.availableAmount.toNat + l.toNat = r.liquidity.availableAmount.toNat) ∧
      (2 ^ 64 ≤ c.toNat * t.toNat / r.collateral.mintTotalSupply.toNat →
        ∃ e, r.redeemCollateral c = .error e)) ↔
    (c.toNat * t.toNat / r.collateral.mintTotalSupply.toNat < 2 ^ 64 ∨
      2 ^ 128 ≤ c.toNat * t.toNat ∨
      r.liquidity.availableAmount.toNat <
        c.toNat * t.toNat / r.collateral.mintTotalSupply.toNat % 2 ^ 64) := by
  have h := hr.sound.toSolvent
  have hle : c.toNat ≤ r.pool.shares := BitVec.le_def.mp hc
  have hdue : c.toNat * t.toNat / r.collateral.mintTotalSupply.toNat =
      r.pool.assetsFor c.toNat := by
    rw [toNat_totalSupply ht]
    rfl
  rw [hdue, toNat_totalSupply ht]
  constructor
  · rintro ⟨-, hfails⟩
    by_contra hall
    -- otherwise the cast cuts the amount to one that is there
    obtain ⟨hbig, hfit, hroom⟩ : 2 ^ 64 ≤ r.pool.assetsFor c.toNat ∧
        c.toNat * r.pool.assets < 2 ^ 128 ∧
        r.pool.assetsFor c.toNat % 2 ^ 64 ≤ r.liquidity.availableAmount.toNat := by omega
    obtain ⟨e, he⟩ := hfails hbig
    obtain ⟨r₁, l, hd⟩ := h.exists_redeemCollateral hle hfit hroom
    rw [he] at hd
    cases hd
  · intro hwhen
    have hfits (r₁ : Reserve) (l : U64) (hd : r.redeemCollateral c = .ok (r₁, l)) :
        r.pool.assetsFor c.toNat < 2 ^ 64 := by
      have hfit := h.product_lt hd
      have hpaid := h.paid hd
      obtain ⟨-, -, hleft⟩ := h.redeemCollateral hd
      omega
    refine ⟨fun r₁ l hd => ⟨?_, (h.redeemCollateral hd).2.2⟩, fun hbig => ?_⟩
    · rw [h.paid hd, Nat.mod_eq_of_lt (hfits r₁ l hd)]
    · cases hd : r.redeemCollateral c with
      | error e => exact ⟨e, rfl⟩
      | ok p => exact absurd (hfits p.1 p.2 hd) (Nat.not_lt.mpr hbig)

theorem redeemCollateral_pays_iff_accrued : ∃ (r₁ : Reserve) (t : U128) (l : U64),
    accruedReserve.liquidity.totalSupply = .ok t ∧
      accruedReserve.redeemCollateral 300 = .ok (r₁, l) ∧ l.toNat = 300 * t.toNat / 1000 := by
  have hok : (accruedReserve.liquidity.totalSupply.toOption.any fun t =>
      300 * t.toNat / 1000 < 2 ^ 64 &&
        (accruedReserve.redeemCollateral 300).toOption.any fun _ => true) = true := by
    decide
  obtain ⟨t, ht, hok⟩ := toOption_any.mp hok
  obtain ⟨hfit, hok⟩ := Bool.and_eq_true_iff.mp hok
  obtain ⟨⟨r₁, l⟩, hd, -⟩ := toOption_any.mp hok
  have hissued : accruedReserve.collateral.mintTotalSupply.toNat = 1000 := by decide
  have hiff := redeemCollateral_pays_iff (r := accruedReserve) (c := 300)
    (reachable_plainReserve _) ht (by decide)
  rw [hissued] at hiff
  exact ⟨r₁, t, l, ht, hd, ((hiff.mpr (.inl (of_decide_eq_true hfit))).1 r₁ l hd).1⟩

/-- The steep terms without limits. -/
def uncappedParams : InitReserveConfigParams :=
  { steepParams with depositLimit := 18446744073709551615, borrowLimit := 18446744073709551615 }

/-- Half of a large deposit lent for eight years. -/
def outgrown : List Op :=
  [.depositLiquidity 4611686018427387904, .borrow 2305843009213693952, .accrueInterest 504576007]

/-- Seven eighths of the cTokens are worth more than `2 ^ 64`, and are burnt for the rest. -/
theorem not_forall_redeemCollateral_pays : ¬ ∀ (r r₁ : Reserve) (t : U128) (c l : U64),
    r.Reachable → 0 < r.collateral.mintTotalSupply → r.liquidity.totalSupply = .ok t →
    c ≤ r.collateral.mintTotalSupply → r.redeemCollateral c = .ok (r₁, l) →
    l.toNat = c.toNat * t.toNat / r.collateral.mintTotalSupply.toNat := by
  intro hall
  have hrun : ((create 7 (.key 2) (.key 3) (.key 5) uncappedParams).toOption.any fun r₀ =>
      (outgrown.foldl tx r₀).liquidity.totalSupply.toOption.any fun t =>
        0 < (outgrown.foldl tx r₀).collateral.mintTotalSupply &&
          (4035225266123964416 : U64) ≤ (outgrown.foldl tx r₀).collateral.mintTotalSupply &&
          ((outgrown.foldl tx r₀).redeemCollateral 4035225266123964416).toOption.any fun p =>
            p.2.toNat ≠ 4035225266123964416 * t.toNat /
              (outgrown.foldl tx r₀).collateral.mintTotalSupply.toNat) = true := by
    decide
  obtain ⟨r₀, hinit, hrun⟩ := toOption_any.mp hrun
  obtain ⟨t, ht, hrun⟩ := toOption_any.mp hrun
  obtain ⟨hbound, hrun⟩ := Bool.and_eq_true_iff.mp hrun
  obtain ⟨hissued, hc⟩ := Bool.and_eq_true_iff.mp hbound
  obtain ⟨⟨r₁, l⟩, hd, hne⟩ := toOption_any.mp hrun
  have hreach : (outgrown.foldl tx r₀).Reachable := ⟨_, _, _, _, _, _, outgrown, hinit, rfl⟩
  exact of_decide_eq_true hne (hall _ r₁ t _ l hreach (of_decide_eq_true hissued) ht
    (of_decide_eq_true hc) hd)

end Reserve

end VeilVault
