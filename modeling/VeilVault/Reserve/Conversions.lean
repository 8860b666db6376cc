/-
# VeilVault.Reserve.Conversions — what a deposit mints and a redemption pays.

Both conversions multiply and divide in `u128` and cut the quotient to `u64`.  While the total
supply covers the cTokens, a deposit mints at most its own amount, so its cut is harmless, but the
quotient can be zero.  A redemption is paid from a total that interest can carry past `u64`, and
there the cut takes the high half of the payment away.
-/
import VeilVault.Reserve.RateBand

namespace VeilVault

open Kit

namespace Reserve

variable {r r₁ r₂ : Reserve} {a c l s : U64}

/-! ## Deposits -/

/-- With cTokens outstanding, a deposit mints the proportional number, rounded down. -/
theorem Solvent.minted (h : r.Solvent) (hpos : 0 < r.pool.shares)
    (hd : r.depositLiquidity a = .ok (r₁, c)) : c.toNat = r.pool.sharesFor a.toNat := by
  obtain ⟨-, hm, -⟩ := depositLiquidity_ok hd
  obtain ⟨-, hc⟩ := liquidityToCollateral_ok hm
  rcases h.collateralExchangeRate with ⟨hzero, -⟩ | ⟨-, hsupply, htotal⟩
  · omega
  · rw [hsupply, htotal] at hc
    -- at most one cToken for each unit, so the cut to 64 bits cuts nothing
    have hle : r.pool.sharesFor a.toNat ≤ a.toNat :=
      SharePool.minted_le h.covered hpos (SharePool.sharesFor_mul_le _ _)
    rw [hc]
    exact Nat.mod_eq_of_lt (Nat.lt_of_le_of_lt hle a.isLt)

/-- Without cTokens, one for each unit. -/
theorem Solvent.minted_first (h : r.Solvent) (hzero : r.pool.shares = 0)
    (hd : r.depositLiquidity a = .ok (r₁, c)) : c = a := by
  obtain ⟨-, hm, -⟩ := depositLiquidity_ok hd
  obtain ⟨-, hc⟩ := liquidityToCollateral_ok hm
  rcases h.collateralExchangeRate with ⟨-, hrate⟩ | ⟨hpos, -, -⟩
  · rw [hrate] at hc
    apply BitVec.eq_of_toNat_eq
    rw [hc]
    show a.toNat * 1 / 1 % 2 ^ 64 = a.toNat
    have := a.isLt
    omega
  · omega

/-- A deposit adds its amount to the assets and its cTokens to the shares. -/
theorem pool_depositLiquidity (hd : r.depositLiquidity a = .ok (r₁, c)) :
    r₁.pool.assets = r.pool.assets + a.toNat ∧ r₁.pool.shares = r.pool.shares + c.toNat ∧
      r.pool.assets + a.toNat < 2 ^ 64 := by
  obtain ⟨⟨t, ht, hlt⟩, -, v, n, hv, hn, rfl⟩ := depositLiquidity_ok hd
  obtain ⟨-, hsum⟩ := ReserveLiquidity.totalSupply_ok.mp ht
  refine ⟨?_, hn, toNat_totalSupply ht ▸ hlt⟩
  simp only [pool, held, fees]
  omega

/-- What a deposit leaves is the pool after the payment. -/
theorem Solvent.pool_payIn (h : r.Solvent) (hpos : 0 < r.pool.shares)
    (hd : r.depositLiquidity a = .ok (r₁, c)) : r₁.pool = r.pool.payIn a.toNat := by
  obtain ⟨hassets, hshares, -⟩ := pool_depositLiquidity hd
  rw [SharePool.payIn, ← h.minted hpos hd, ← hassets, ← hshares]

/-- Only the sum under the total supply can outgrow its word. -/
theorem Solvent.depositLiquidity (h : r.Solvent) (hpos : 0 < r.pool.shares)
    (hd : r.depositLiquidity a = .ok (r₁, c)) (hfit : r.held + a.toNat < 2 ^ 128) :
    r₁.Solvent := by
  refine ⟨?_, h.pool_payIn hpos hd ▸ (SharePool.payIn_step hpos _).solvent h.covered⟩
  obtain ⟨⟨t, ht, -⟩, -, v, n, hv, -, rfl⟩ := depositLiquidity_ok hd
  obtain ⟨-, hsum⟩ := ReserveLiquidity.totalSupply_ok.mp ht
  have hheld : v.toNat + r.liquidity.borrowedAmountSf.toNat = r.held + a.toNat := by
    rw [hv, held]
    omega
  have hnext : t.toNat + a.toNat + r.liquidity.accumulatedProtocolFees.toNat =
      v.toNat + r.liquidity.borrowedAmountSf.toNat := by
    rw [hheld, held]
    omega
  refine ⟨BitVec.ofNatLT (t.toNat + a.toNat) (by omega), ReserveLiquidity.totalSupply_ok.mpr ?_⟩
  rw [BitVec.toNat_ofNatLT]
  exact ⟨hheld ▸ hfit, hnext⟩

theorem within_depositLimit (hd : r.depositLiquidity a = .ok (r₁, c)) :
    r.pool.assets + a.toNat ≤ r.config.depositLimit.toNat := by
  simp only [Reserve.depositLiquidity, bind_eq_ok, require_eq_ok, exists_const] at hd
  obtain ⟨t, ht, hlimit, -⟩ := hd
  have hword := r.config.depositLimit.isLt
  rw [BitVec.le_def, toNat_saturatingAdd, toNat_toU128, toNat_toU128] at hlimit
  rw [← toNat_totalSupply ht]
  omega

/-- A deposit within the limit succeeds when the vault's counter can take it: the product and the
new supply of cTokens fit by themselves. -/
theorem Solvent.exists_depositLiquidity (h : r.Solvent) (hpos : 0 < r.pool.shares)
    (hlimit : r.pool.assets + a.toNat ≤ r.config.depositLimit.toNat)
    (hroom : r.liquidity.availableAmount.toNat + a.toNat < 2 ^ 64) :
    ∃ r₁ c, r.depositLiquidity a = .ok (r₁, c) := by
  obtain ⟨t, ht⟩ := h.total
  have htotal := toNat_totalSupply ht
  have hword := r.config.depositLimit.isLt
  have hbelow : saturatingAdd t a.toU128 ≤ r.config.depositLimit.toU128 := by
    rw [BitVec.le_def, toNat_saturatingAdd, toNat_toU128, toNat_toU128]
    omega
  rcases h.collateralExchangeRate with ⟨hzero, -⟩ | ⟨-, hsupply, hrate⟩
  · omega
  · have hassets : 0 < r.pool.assets := Nat.lt_of_lt_of_le hpos h.covered
    have hproduct : a.toNat * r.pool.shares < 2 ^ 64 * 2 ^ 64 :=
      Nat.mul_lt_mul'' a.isLt r.collateral.mintTotalSupply.isLt
    obtain ⟨m, hm, -⟩ := exists_checkedMul (x := a.toU128)
      (y := r.collateralExchangeRate.collateralSupply) (by
        rw [toNat_toU128, hsupply]
        exact hproduct)
    obtain ⟨q, hq, -⟩ := exists_checkedDiv (x := m)
      (y := r.collateralExchangeRate.totalLiquidity) (by omega)
    have hc : r.collateralExchangeRate.liquidityToCollateral a = .ok (U128.toU64 q) := by
      simp only [CollateralExchangeRate.liquidityToCollateral, Option.bind_eq_bind, hm,
        Option.bind_some, hq, okOr_some, ok_bind]
      rfl
    -- at most one cToken for each unit, and the units are within the limit
    have hminted : (U128.toU64 q).toNat ≤ a.toNat := by
      obtain ⟨-, hval⟩ := liquidityToCollateral_ok hc
      rw [hval, hsupply, hrate]
      exact (Nat.mod_le _ _).trans
        (SharePool.minted_le h.covered hpos (SharePool.sharesFor_mul_le r.pool a.toNat))
    have hcovered : r.collateral.mintTotalSupply.toNat ≤ r.pool.assets := h.covered
    obtain ⟨v, hv, -⟩ := exists_checkedAdd (x := r.liquidity.availableAmount) (y := a) hroom
    obtain ⟨n, hn, -⟩ := exists_checkedAdd (x := r.collateral.mintTotalSupply)
      (y := U128.toU64 q) (by omega)
    simp only [Reserve.depositLiquidity, ht, ok_bind, require_pos hbelow, hc,
      ReserveLiquidity.deposit, hv, okOr_some, ReserveCollateral.mint, hn]
    exact ⟨_, _, rfl⟩

/-! ## Redemptions -/

/-- Without cTokens nothing is asked for, and the pool's rate has nothing to pay. -/
theorem Solvent.collateralToLiquidity (h : r.Solvent) (hc : c.toNat ≤ r.pool.shares)
    (hl : r.collateralExchangeRate.collateralToLiquidity c = .ok l) :
    l.toNat = r.pool.assetsFor c.toNat % 2 ^ 64 := by
  obtain ⟨-, hval⟩ := collateralToLiquidity_ok hl
  rw [hval]
  rcases h.collateralExchangeRate with ⟨hzero, hrate⟩ | ⟨-, hsupply, htotal⟩
  · have hnone : c.toNat = 0 := by omega
    rw [hnone, SharePool.assetsFor_zero, Nat.zero_mul, Nat.zero_div]
  · rw [hsupply, htotal]
    rfl

/-- A redemption pays the proportional amount, rounded down and cut to 64 bits. -/
theorem Solvent.paid (h : r.Solvent) (hd : r.redeemCollateral c = .ok (r₁, l)) :
    l.toNat = r.pool.assetsFor c.toNat % 2 ^ 64 := by
  obtain ⟨hl, v, n, -, hn, -⟩ := redeemCollateral_ok hd
  apply h.collateralToLiquidity _ hl
  show c.toNat ≤ r.collateral.mintTotalSupply.toNat
  omega

/-- The product is taken in `u128`. -/
theorem Solvent.product_lt (h : r.Solvent) (hd : r.redeemCollateral c = .ok (r₁, l)) :
    c.toNat * r.pool.assets < 2 ^ 128 := by
  obtain ⟨hl, v, n, -, hn, -⟩ := redeemCollateral_ok hd
  have hshares : n.toNat + c.toNat = r.pool.shares := hn
  rcases h.collateralExchangeRate with ⟨hzero, -⟩ | ⟨-, -, htotal⟩
  · have hnone : c.toNat = 0 := by omega
    rw [hnone, Nat.zero_mul]
    decide
  · simp only [CollateralExchangeRate.collateralToLiquidity, bind_eq_ok, okOr_eq_ok,
      Option.bind_eq_bind, Option.bind_eq_some_iff, checkedMul_eq_some, toNat_toU128,
      htotal] at hl
    obtain ⟨-, ⟨m, hm, -⟩, -⟩ := hl
    rw [← hm]
    exact m.isLt

/-- A redemption takes what it pays out of the vault, and its cTokens out of circulation. -/
theorem Solvent.redeemCollateral (h : r.Solvent)
    (hd : r.redeemCollateral c = .ok (r₁, l)) :
    r₁.Solvent ∧ r₁.pool = ⟨r.pool.assets - l.toNat, r.pool.shares - c.toNat⟩ ∧
      r₁.liquidity.availableAmount.toNat + l.toNat = r.liquidity.availableAmount.toNat := by
  obtain ⟨t, ht⟩ := h.total
  obtain ⟨hfit, hsum⟩ := ReserveLiquidity.totalSupply_ok.mp ht
  have hassets := toNat_totalSupply ht
  have hpaid := h.paid hd
  obtain ⟨-, v, n, hv, hn, rfl⟩ := redeemCollateral_ok hd
  have hshares : n.toNat + c.toNat = r.pool.shares := hn
  have hprop : l.toNat * r.pool.shares ≤ c.toNat * r.pool.assets := by
    rw [hpaid]
    exact (Nat.mul_le_mul_right _ (Nat.mod_le _ _)).trans (SharePool.assetsFor_mul_le _ _)
  have hle : l.toNat ≤ r.pool.assets := by
    rw [hpaid]
    exact (Nat.mod_le _ _).trans (SharePool.assetsFor_le _ (by omega))
  have hpool : Reserve.pool { r with
      liquidity := { r.liquidity with availableAmount := v }
      collateral := { r.collateral with mintTotalSupply := n } } =
        ⟨r.pool.assets - l.toNat, r.pool.shares - c.toNat⟩ := by
    simp only [pool, held, fees, SharePool.mk.injEq] at hle ⊢
    omega
  refine ⟨⟨?_, ?_⟩, hpool, hv⟩
  · -- the fees are not part of the pool, so they stay covered
    refine ⟨BitVec.ofNatLT (r.pool.assets - l.toNat) (by omega), ?_⟩
    rw [ReserveLiquidity.totalSupply_ok, BitVec.toNat_ofNatLT]
    simp only
    omega
  · rw [hpool]
    rcases Nat.eq_zero_or_pos r.pool.shares with hzero | hpos
    · show r.pool.shares - c.toNat ≤ _
      omega
    · exact (SharePool.Step.cashIn c.toNat l.toNat hpos hprop).solvent h.covered

/-- Enough cTokens, a product that fits and enough in the vault are all it takes. -/
theorem Solvent.exists_redeemCollateral (h : r.Solvent) (hc : c.toNat ≤ r.pool.shares)
    (hfit : c.toNat * r.pool.assets < 2 ^ 128)
    (hroom : r.pool.assetsFor c.toNat % 2 ^ 64 ≤ r.liquidity.availableAmount.toNat) :
    ∃ r₁ l, r.redeemCollateral c = .ok (r₁, l) := by
  obtain ⟨l, hl⟩ : ∃ l, r.collateralExchangeRate.collateralToLiquidity c = .ok l := by
    have hrate : 0 < r.collateralExchangeRate.collateralSupply.toNat ∧
        c.toNat * r.collateralExchangeRate.totalLiquidity.toNat < 2 ^ 128 := by
      rcases h.collateralExchangeRate with ⟨-, hrate⟩ | ⟨hpos, hsupply, htotal⟩
      · rw [hrate]
        exact ⟨by decide, Nat.lt_of_le_of_lt (Nat.mul_one c.toNat).le (by have := c.isLt; omega)⟩
      · rw [hsupply, htotal]
        exact ⟨hpos, hfit⟩
    obtain ⟨m, hm, -⟩ := exists_checkedMul (x := c.toU128)
      (y := r.collateralExchangeRate.totalLiquidity) (by rw [toNat_toU128]; exact hrate.2)
    obtain ⟨q, hq, -⟩ := exists_checkedDiv (x := m)
      (y := r.collateralExchangeRate.collateralSupply) hrate.1.ne'
    refine ⟨U128.toU64 q, ?_⟩
    simp only [CollateralExchangeRate.collateralToLiquidity, Option.bind_eq_bind, hm,
      Option.bind_some, hq, okOr_some, ok_bind]
    rfl
  rw [← h.collateralToLiquidity hc hl] at hroom
  obtain ⟨n, hn, -⟩ := exists_checkedSub (x := r.collateral.mintTotalSupply) (y := c) hc
  obtain ⟨v, hv, -⟩ := exists_checkedSub (x := r.liquidity.availableAmount) (y := l) hroom
  have hburn : r.collateral.mintTotalSupply ≥ c := BitVec.le_def.mpr hc
  have hvault : r.liquidity.availableAmount ≥ l := BitVec.le_def.mpr hroom
  simp only [Reserve.redeemCollateral, hl, ok_bind, ReserveCollateral.burn, require_pos hburn, hn,
    okOr_some, pure_bind, ReserveLiquidity.withdraw, require_pos hvault, hv]
  exact ⟨_, _, rfl⟩

end Reserve

end VeilVault
