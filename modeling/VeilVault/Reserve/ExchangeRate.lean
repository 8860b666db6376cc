/-
# VeilVault.Reserve.ExchangeRate — what a cToken is worth never falls.

A reserve is a share pool: its assets are the total supply (liquidity plus debt minus protocol
fees), its shares the cTokens.  Every method that succeeds is a step of the pool, whatever it
rounds; the pool's rules then give solvency and a worth that never falls.

The total has to exist for that.  It is a checked sum of a `u64` and a `u128`, and nothing in the
accrual compares it with the word size.  What keeps it in range is the unchecked `* 100` of
`utilizationRate`: a debt beyond a hundredth of the word aborts every accrual but one, the accrual
of a pool without any supply, and after that one the pool is too large for anyone to deposit
(`Sound.bounded`).
-/
import VeilVault.Kit.Run
import VeilVault.Kit.SharePool
import VeilVault.Reserve.Methods

namespace VeilVault

open Kit

namespace Reserve

/-! ## The calls -/

/-- The calls a reserve answers. -/
inductive Op
  | depositLiquidity (amount : U64)
  | redeemCollateral (collateralAmount : U64)
  | borrow (amount : U64)
  | repay (amount : U64)
  | accrueInterest (currentSlot : U64)
  | updateConfig (newConfig : ReserveConfig)

def exec (r : Reserve) : Op → Result Reserve
  | .depositLiquidity a => do
      let (r, _) ← r.depositLiquidity a
      return r
  | .redeemCollateral c => do
      let (r, _) ← r.redeemCollateral c
      return r
  | .borrow a => r.borrow a
  | .repay a => r.repay a
  | .accrueInterest s => r.accrueInterest s
  | .updateConfig c => do
      let config ← r.config.update c
      return { r with config }

/-- A call whose transaction is rolled back when it fails. -/
def tx (r : Reserve) (op : Op) : Reserve := attemptStep exec r op

/-! ## The pool -/

variable {r r' : Reserve} {a s : U64}

/-- Liquidity in the vault and liquidity lent out. -/
def held (r : Reserve) : ℕ := r.liquidity.availableAmount.toNat + r.liquidity.borrowedAmountSf.toNat

def fees (r : Reserve) : ℕ := r.liquidity.accumulatedProtocolFees.toNat

def pool (r : Reserve) : SharePool where
  assets := r.held - r.fees
  shares := r.collateral.mintTotalSupply.toNat

/-- The total supply can be computed, and covers the cTokens. -/
structure Solvent (r : Reserve) : Prop where
  total : ∃ t, r.liquidity.totalSupply = .ok t
  covered : r.pool.Solvent

/-- The invariant. -/
structure Sound (r : Reserve) : Prop where
  feeRate : r.config.protocolFee.toNat ≤ 1000
  solvent : r.collateral.mintTotalSupply.toNat + r.fees ≤ r.held
  /-- Either debt and fees are small, or the pool is empty and closed to deposits. -/
  bounded : (r.fees < 2 ^ 122 ∧ r.held < 2 ^ 122 + 2 ^ 64) ∨
    (r.collateral.mintTotalSupply.toNat = 0 ∧ 2 ^ 64 + r.fees ≤ r.held ∧ r.held < 2 ^ 123)

theorem Sound.held_lt (h : Sound r) : r.held < 2 ^ 128 := by
  rcases h.bounded with ⟨-, hlt⟩ | ⟨-, -, hlt⟩ <;> omega

theorem Sound.pool_solvent (h : Sound r) : r.pool.Solvent := by
  have := h.solvent
  show r.collateral.mintTotalSupply.toNat ≤ r.held - r.fees
  omega

/-- A total that can be computed is the pool's assets. -/
theorem toNat_totalSupply {t : U128} (h : r.liquidity.totalSupply = .ok t) :
    t.toNat = r.pool.assets := by
  obtain ⟨-, hsum⟩ := ReserveLiquidity.totalSupply_ok.mp h
  show t.toNat = r.liquidity.availableAmount.toNat + r.liquidity.borrowedAmountSf.toNat -
    r.liquidity.accumulatedProtocolFees.toNat
  omega

theorem Solvent.totalSupplyOrZero (h : r.Solvent) :
    r.liquidity.totalSupplyOrZero.toNat = r.pool.assets := by
  obtain ⟨t, ht⟩ := h.total
  rw [ReserveLiquidity.totalSupplyOrZero_of_ok ht, toNat_totalSupply ht]

/-- In range, the total supply is the pool's assets. -/
theorem Sound.totalSupply (h : Sound r) :
    ∃ t, r.liquidity.totalSupply = .ok t ∧ t.toNat = r.pool.assets := by
  have hlt := h.held_lt
  have hle := h.solvent
  have hfit : r.pool.assets < 2 ^ 128 := by
    show r.held - r.fees < 2 ^ 128
    omega
  refine ⟨BitVec.ofNatLT r.pool.assets hfit, ?_, BitVec.toNat_ofNatLT _ hfit⟩
  apply ReserveLiquidity.totalSupply_ok.mpr
  refine ⟨hlt, ?_⟩
  rw [BitVec.toNat_ofNatLT]
  show r.held - r.fees + r.fees = r.held
  omega

theorem Sound.toSolvent (h : Sound r) : r.Solvent := by
  obtain ⟨t, ht, -⟩ := h.totalSupply
  exact ⟨⟨t, ht⟩, h.pool_solvent⟩

theorem Sound.totalSupplyOrZero (h : Sound r) :
    r.liquidity.totalSupplyOrZero.toNat = r.pool.assets := h.toSolvent.totalSupplyOrZero

/-- The pool changed by a step, and the invariant survived it. -/
structure Advances (r r' : Reserve) : Prop where
  sound : Sound r'
  step : r.pool.Step r'.pool

/-- A call that moves neither the total nor the shares is a gain of nothing. -/
theorem Sound.stay (h : Sound r) (hfee : r'.config.protocolFee.toNat ≤ 1000)
    (hheld : r'.held = r.held) (hfees : r'.fees = r.fees)
    (hshares : r'.collateral.mintTotalSupply = r.collateral.mintTotalSupply) : Advances r r' := by
  refine ⟨⟨hfee, ?_, ?_⟩, ?_⟩
  · rw [hheld, hfees, hshares]
    exact h.solvent
  · rw [hheld, hfees, hshares]
    exact h.bounded
  · have hsame : r'.pool = ⟨r.pool.assets + 0, r.pool.shares⟩ := by
      rw [pool, hheld, hfees, hshares]
      rfl
    rw [hsame]
    exact .gain 0

/-! ## Conversions -/

theorem liquidityToCollateral_ok {x : CollateralExchangeRate} {m : U64}
    (h : x.liquidityToCollateral a = .ok m) : 0 < x.totalLiquidity.toNat ∧
      m.toNat = a.toNat * x.collateralSupply.toNat / x.totalLiquidity.toNat % 2 ^ 64 := by
  simp only [CollateralExchangeRate.liquidityToCollateral, bind_eq_ok, okOr_eq_ok,
    Option.bind_eq_bind, Option.bind_eq_some_iff, checkedMul_eq_some, checkedDiv_eq_some,
    pure_eq_ok, toNat_toU128] at h
  obtain ⟨q, ⟨n, hn, hpos, hq⟩, rfl⟩ := h
  refine ⟨by omega, ?_⟩
  rw [toNat_toU64, hq, hn]

theorem collateralToLiquidity_ok {x : CollateralExchangeRate} {l : U64}
    (h : x.collateralToLiquidity a = .ok l) : 0 < x.collateralSupply.toNat ∧
      l.toNat = a.toNat * x.totalLiquidity.toNat / x.collateralSupply.toNat % 2 ^ 64 := by
  simp only [CollateralExchangeRate.collateralToLiquidity, bind_eq_ok, okOr_eq_ok,
    Option.bind_eq_bind, Option.bind_eq_some_iff, checkedMul_eq_some, checkedDiv_eq_some,
    pure_eq_ok, toNat_toU128] at h
  obtain ⟨q, ⟨n, hn, hpos, hq⟩, rfl⟩ := h
  refine ⟨by omega, ?_⟩
  rw [toNat_toU64, hq, hn]

/-- Without shares the rate is one to one; otherwise it is the pool's. -/
theorem Solvent.collateralExchangeRate (h : r.Solvent) :
    (r.pool.shares = 0 ∧ r.collateralExchangeRate = ⟨1, 1⟩) ∨
    (0 < r.pool.shares ∧ r.collateralExchangeRate.collateralSupply.toNat = r.pool.shares ∧
      r.collateralExchangeRate.totalLiquidity.toNat = r.pool.assets) := by
  have hassets := h.totalSupplyOrZero
  have hsolvent : r.pool.shares ≤ r.pool.assets := h.covered
  unfold Reserve.collateralExchangeRate ReserveCollateral.exchangeRate
  rcases Nat.eq_zero_or_pos r.pool.shares with hzero | hpos
  · have hsupply : r.collateral.mintTotalSupply = 0 := BitVec.eq_of_toNat_eq hzero
    exact .inl ⟨hzero, if_pos (.inl hsupply)⟩
  · have hsupply : r.collateral.mintTotalSupply ≠ 0 := ne_zero_iff_toNat_pos.mp hpos
    have htotal : r.liquidity.totalSupplyOrZero ≠ 0 := ne_zero_iff_toNat_pos.mp (by omega)
    rw [if_neg (not_or.mpr ⟨hsupply, htotal⟩)]
    exact .inr ⟨hpos, toNat_toU128 _, hassets⟩

/-! ## Deposits and redemptions -/

theorem Sound.depositLiquidity {m : U64} (h : Sound r)
    (hd : r.depositLiquidity a = .ok (r', m)) : Advances r r' := by
  obtain ⟨⟨t, ht, hlt⟩, hm, v, n, hv, hn, hr'⟩ := depositLiquidity_ok hd
  obtain ⟨hheld, hfees, hconfig, hshares⟩ : r'.held = r.held + a.toNat ∧ r'.fees = r.fees ∧
      r'.config = r.config ∧ r'.collateral.mintTotalSupply.toNat =
        r.collateral.mintTotalSupply.toNat + m.toNat := by
    subst hr'
    refine ⟨?_, rfl, rfl, hn⟩
    simp only [held, hv]
    omega
  have hassets : t.toNat = r.pool.assets := by
    rw [← h.totalSupplyOrZero, ReserveLiquidity.totalSupplyOrZero_of_ok ht]
  have hle := h.solvent
  obtain ⟨-, hmval⟩ := liquidityToCollateral_ok hm
  have hpool : r'.pool = ⟨r.pool.assets + a.toNat, r.pool.shares + m.toNat⟩ := by
    simp only [pool, hheld, hfees, hshares, SharePool.mk.injEq, and_true]
    omega
  have hstep : r.pool.Step r'.pool := by
    rw [hpool]
    rcases h.toSolvent.collateralExchangeRate with ⟨hzero, hrate⟩ | ⟨hpos, hsupply, htotal⟩
    -- an empty pool issues one cToken for one unit
    · have hone : m.toNat = a.toNat := by
        rw [hmval, hrate]
        show a.toNat * 1 / 1 % 2 ^ 64 = a.toNat
        have := a.isLt
        omega
      rw [hone]
      exact .found a.toNat hzero
    -- otherwise the floor issues no more than the pool's rate allows
    · apply SharePool.Step.payIn a.toNat m.toNat hpos
      calc m.toNat * r.pool.assets
          ≤ a.toNat * r.pool.shares / r.pool.assets * r.pool.assets := by
            apply Nat.mul_le_mul_right
            rw [hmval, hsupply, htotal]
            exact Nat.mod_le _ _
        _ ≤ a.toNat * r.pool.shares := Nat.div_mul_le_self _ _
  have hsolvent : r'.pool.shares ≤ r'.pool.assets := hstep.solvent h.pool_solvent
  have hassets' : r.pool.assets = r.held - r.fees := rfl
  refine ⟨⟨hconfig ▸ h.feeRate, ?_, ?_⟩, hstep⟩
  · rw [hpool] at hsolvent
    have hshares' : r.pool.shares = r.collateral.mintTotalSupply.toNat := rfl
    simp only at hsolvent
    omega
  · -- the deposit limit is a `u64`, so only a small pool accepts a deposit
    rcases h.bounded with ⟨hf, -⟩ | ⟨-, hbig, -⟩
    · exact .inl ⟨by omega, by omega⟩
    · omega

theorem Sound.redeemCollateral {c l : U64} (h : Sound r)
    (hd : r.redeemCollateral c = .ok (r', l)) : Advances r r' := by
  obtain ⟨hl, v, n, hv, hn, hr'⟩ := redeemCollateral_ok hd
  obtain ⟨hheld, hfees, hconfig, hshares⟩ : r'.held + l.toNat = r.held ∧ r'.fees = r.fees ∧
      r'.config = r.config ∧ r'.collateral.mintTotalSupply.toNat + c.toNat =
        r.collateral.mintTotalSupply.toNat := by
    subst hr'
    refine ⟨?_, rfl, rfl, hn⟩
    simp only [held]
    omega
  obtain ⟨-, hlval⟩ := collateralToLiquidity_ok hl
  have hle := h.solvent
  have hshares' : r.pool.shares = r.collateral.mintTotalSupply.toNat := rfl
  rcases h.toSolvent.collateralExchangeRate with ⟨hzero, hrate⟩ | ⟨hpos, hsupply, htotal⟩
  · -- no shares exist, so none were redeemed
    have hc : c.toNat = 0 := by omega
    have hnone : l.toNat = 0 := by
      rw [hlval, hrate, hc]
      rfl
    apply h.stay (hconfig ▸ h.feeRate) (by omega) hfees
    exact BitVec.eq_of_toNat_eq (by omega)
  -- the floor pays no more than the shares' part of the pool
  · have hprop : l.toNat * r.pool.shares ≤ c.toNat * r.pool.assets := by
      calc l.toNat * r.pool.shares
          ≤ c.toNat * r.pool.assets / r.pool.shares * r.pool.shares := by
            apply Nat.mul_le_mul_right
            rw [hlval, hsupply, htotal]
            exact Nat.mod_le _ _
        _ ≤ c.toNat * r.pool.assets := Nat.div_mul_le_self _ _
    have hpool : r'.pool = ⟨r.pool.assets - l.toNat, r.pool.shares - c.toNat⟩ := by
      simp only [pool, SharePool.mk.injEq]
      omega
    have hstep : r.pool.Step r'.pool := hpool ▸ .cashIn c.toNat l.toNat hpos hprop
    have hpaid := SharePool.paid_le hpos (by omega) hprop
    have hsolvent : r'.pool.shares ≤ r'.pool.assets := hstep.solvent h.pool_solvent
    have hassets : r.pool.assets = r.held - r.fees := rfl
    refine ⟨⟨hconfig ▸ h.feeRate, ?_, ?_⟩, hstep⟩
    · rw [hpool] at hsolvent
      simp only at hsolvent
      omega
    · rcases h.bounded with ⟨hf, hb⟩ | ⟨hzero, -, -⟩
      · exact .inl ⟨by omega, by omega⟩
      · omega

/-! ## Lending and accrual -/

theorem Sound.borrow (h : Sound r) (hb : r.borrow a = .ok r') : Advances r r' := by
  obtain ⟨-, l', hl, rfl⟩ := borrow_ok.mp hb
  obtain ⟨v, d, hv, hd, rfl⟩ := ReserveLiquidity.borrow_ok.mp hl
  refine h.stay h.feeRate ?_ rfl rfl
  simp only [held]
  omega

theorem Sound.repay (h : Sound r) (hb : r.repay a = .ok r') : Advances r r' := by
  obtain ⟨l', hl, rfl⟩ := repay_ok.mp hb
  obtain ⟨v, d, hv, hd, rfl⟩ := ReserveLiquidity.repay_ok.mp hl
  refine h.stay h.feeRate ?_ rfl rfl
  simp only [held]
  omega

/-- Interest `x / 10 ^ 12` with a protocol share of at most a tenth. -/
theorem Sound.accrue {x feeRate : ℕ} (h : Sound r) (hconfig : r'.config = r.config)
    (hshares : r'.collateral = r.collateral) (hfee : feeRate ≤ 1000) (hx : x < 2 ^ 128)
    (hgrow : r.liquidity.borrowedAmountSf.toNat ≤ x)
    (hrate : r.liquidity.totalSupplyOrZero = 0 ∨
      r.liquidity.borrowedAmountSf.toNat * 100 < 2 ^ 128)
    (hheld : r'.held = r.held + x / 10 ^ 12)
    (hfees : r'.fees = r.fees + x / 10 ^ 12 * feeRate / 10000) : Advances r r' := by
  have hshare : x / 10 ^ 12 * feeRate ≤ x / 10 ^ 12 * 1000 := Nat.mul_le_mul_left _ hfee
  have hle := h.solvent
  -- suppliers gain the interest less the protocol's share, a tenth at most
  have hpool : r'.pool =
      ⟨r.pool.assets + (x / 10 ^ 12 - x / 10 ^ 12 * feeRate / 10000), r.pool.shares⟩ := by
    simp only [pool, hheld, hfees, hshares, SharePool.mk.injEq, and_true]
    omega
  refine ⟨⟨hconfig ▸ h.feeRate, ?_, ?_⟩, hpool ▸ .gain _⟩
  · rw [hheld, hfees, hshares]
    omega
  · have hdebt : r.held = r.liquidity.availableAmount.toNat +
        r.liquidity.borrowedAmountSf.toNat := rfl
    have havail := r.liquidity.availableAmount.isLt
    rw [hheld, hfees, hshares]
    by_cases hsmall : r.liquidity.borrowedAmountSf.toNat * 100 < 2 ^ 128
    · exact .inl ⟨by omega, by omega⟩
    · -- only a pool without supply accrues a debt this large, and it jumps past the deposit limit
      have hzero : r.held - r.fees = 0 := by
        have hassets := h.totalSupplyOrZero
        rw [hrate.resolve_right hsmall] at hassets
        exact hassets.symm
      rcases h.bounded with ⟨hf, hb⟩ | ⟨-, hbig, -⟩
      · exact .inr ⟨by omega, by omega, by omega⟩
      · omega

theorem Sound.accrueInterest (h : Sound r) (ha : r.accrueInterest s = .ok r') :
    Advances r r' := by
  rcases accrueInterest_ok ha with ⟨-, rfl⟩ | ⟨-, bps, hbps, ⟨-, rfl⟩ | ⟨hpos, l', hl, rfl⟩⟩
  · exact h.stay h.feeRate rfl rfl rfl
  · exact h.stay h.feeRate rfl rfl rfl
  · obtain ⟨hn, hb, hx, d, i, f, hd, -, hf, rfl⟩ := ReserveLiquidity.accuredInterest_ok hl
    refine h.accrue rfl rfl h.feeRate hx ?_
      (currentBorrowRate_ok hbps) ?_ ?_
    · exact Nat.le_mul_of_pos_left _ (ReserveLiquidity.periodRate_pos hb hn)
    · simp only [held, hd]
      omega
    · rw [fees, hf, toNat_u16_toU64]
      rfl

/-! ## Configurations -/

theorem feeRate_of_validate {c : ReserveConfig} (h : c.validate = .ok ()) :
    c.protocolFee.toNat ≤ 1000 := by
  simp only [ReserveConfig.validate, bind_eq_ok, require_eq_ok, exists_const] at h
  obtain ⟨-, -, -, -, hfee⟩ := h
  exact BitVec.le_def.mp hfee

theorem Sound.updateConfig {c : ReserveConfig} (h : Sound r) (hc : c.validate = .ok ()) :
    Advances r { r with config := c } :=
  h.stay (feeRate_of_validate hc) rfl rfl rfl

theorem sound_create {slot : U64} {market key mint : Pubkey} {params : InitReserveConfigParams}
    (h : create slot market key mint params = .ok r) : Sound r := by
  simp only [create, ReserveConfig.init, bind_eq_ok, pure_eq_ok] at h
  obtain ⟨c, ⟨⟨⟩, hc, rfl⟩, rfl⟩ := h
  refine ⟨feeRate_of_validate hc, le_refl _, ?_⟩
  left
  show 0 < 2 ^ 122 ∧ 0 + 0 < 2 ^ 122 + 2 ^ 64
  omega

/-! ## Whole histories -/

/-- Every call that succeeds is a step of the pool and keeps the invariant. -/
theorem Sound.exec {op : Op} (h : Sound r) (hexec : r.exec op = .ok r') : Advances r r' := by
  cases op with
  | depositLiquidity a =>
      simp only [Reserve.exec, bind_eq_ok, pure_eq_ok, Prod.exists] at hexec
      obtain ⟨r₁, m, hd, rfl⟩ := hexec
      exact h.depositLiquidity hd
  | redeemCollateral c =>
      simp only [Reserve.exec, bind_eq_ok, pure_eq_ok, Prod.exists] at hexec
      obtain ⟨r₁, l, hd, rfl⟩ := hexec
      exact h.redeemCollateral hd
  | borrow a => exact h.borrow hexec
  | repay a => exact h.repay hexec
  | accrueInterest s => exact h.accrueInterest hexec
  | updateConfig c =>
      simp only [Reserve.exec, ReserveConfig.update, bind_eq_ok, pure_eq_ok] at hexec
      obtain ⟨c', ⟨⟨⟩, hc, rfl⟩, rfl⟩ := hexec
      exact h.updateConfig hc

theorem Sound.run (h : Sound r) (ops : List Op) : Sound (ops.foldl tx r) :=
  foldl_invariant ops r h fun _ _ _ ht => attemptStep_invariant ht fun _ hexec =>
    (ht.exec hexec).sound

/-- After any history the total supply exists and covers the cTokens, and no call lowers what a
cToken is worth. -/
theorem exchangeRate_never_falls {slot : U64} {market key mint : Pubkey}
    {params : InitReserveConfigParams} {r₀ : Reserve}
    (hinit : create slot market key mint params = .ok r₀) (ops : List Op) :
    (∃ t, (ops.foldl tx r₀).liquidity.totalSupply = .ok t ∧
      (ops.foldl tx r₀).collateral.mintTotalSupply.toNat ≤ t.toNat ∧
      (0 < (ops.foldl tx r₀).collateral.mintTotalSupply.toNat → 0 < t.toNat)) ∧
    ∀ (op : Op) (r' : Reserve) (t t' : U128), (ops.foldl tx r₀).exec op = .ok r' →
      (ops.foldl tx r₀).liquidity.totalSupply = .ok t → r'.liquidity.totalSupply = .ok t' →
      0 < (ops.foldl tx r₀).collateral.mintTotalSupply.toNat →
      t.toNat * r'.collateral.mintTotalSupply.toNat ≤
        t'.toNat * (ops.foldl tx r₀).collateral.mintTotalSupply.toNat := by
  have hsound := (sound_create hinit).run ops
  have hassets {q : Reserve} {t : U128} (hq : Sound q) (ht : q.liquidity.totalSupply = .ok t) :
      t.toNat = q.pool.assets := by
    rw [← hq.totalSupplyOrZero, ReserveLiquidity.totalSupplyOrZero_of_ok ht]
  constructor
  · obtain ⟨t, ht, hval⟩ := hsound.totalSupply
    have hle := hsound.pool_solvent
    unfold SharePool.Solvent at hle
    rw [← hval] at hle
    exact ⟨t, ht, hle, fun hpos => Nat.lt_of_lt_of_le hpos hle⟩
  · intro op r' t t' hexec ht ht' hpos
    have hstep := hsound.exec hexec
    rw [hassets hsound ht, hassets hstep.sound ht']
    exact hstep.step.noWorse hpos

/-- A new reserve with a plain configuration. -/
def plainReserve : Reserve where
  liquidity := ReserveLiquidity.init (.key 5) (.liquidityVault (.key 3)) (.feeVault (.key 3))
  config :=
    { depositLimit := 1000000, borrowLimit := 1000000, minBorrowRateBps := 200,
      optimalBorrowRateBps := 500, maxBorrowRateBps := 2000, optimalUtilizationBps := 8000,
      liquidationBonusPct := 500, protocolFee := 100, status := 0, loanToValuePct := 75,
      liquidationThresholdPct := 85, pythOracle := .key 11 }
  collateral := ReserveCollateral.init (.collateralMint (.key 3)) (.collateralSupply (.key 3))
  version := 1
  lastUpdateSlot := 7
  lendingMarket := .key 2

theorem create_plainReserve :
    create 7 (.key 2) (.key 3) (.key 5)
      { status := 0, minBorrowRateBps := 200, optimalBorrowRateBps := 500,
        maxBorrowRateBps := 2000, optimalUtilizationBps := 8000, loanToValuePct := 75,
        liquidationThresholdPct := 85, liquidationBonusPct := 500, depositLimit := 1000000,
        borrowLimit := 1000000, protocolFee := 100, pythOracle := .key 11 } =
      .ok plainReserve := rfl

/-- 1000 deposited, 400 of them lent. -/
def lentReserve : Reserve := [Op.depositLiquidity 1000, .borrow 400].foldl tx plainReserve

theorem exchangeRate_never_falls_lent :
    ∃ (r' : Reserve) (t t' : U128), lentReserve.exec (.accrueInterest 100007) = .ok r' ∧
      lentReserve.liquidity.totalSupply = .ok t ∧ r'.liquidity.totalSupply = .ok t' ∧
      1000 ≤ t.toNat ∧ t.toNat * r'.collateral.mintTotalSupply.toNat ≤ t'.toNat * 1000 := by
  have hsupply : lentReserve.collateral.mintTotalSupply.toNat = 1000 := by decide
  have hmain := exchangeRate_never_falls create_plainReserve [.depositLiquidity 1000, .borrow 400]
  rw [show [Op.depositLiquidity 1000, .borrow 400].foldl tx plainReserve = lentReserve from rfl,
    hsupply] at hmain
  obtain ⟨⟨t, ht, hle, -⟩, hrate⟩ := hmain
  have hok : (lentReserve.exec (.accrueInterest 100007)).isOk = true := by decide
  cases hexec : lentReserve.exec (.accrueInterest 100007) with
  | error e =>
      rw [hexec] at hok
      cases hok
  | ok r' =>
      have hsound := sound_create create_plainReserve
      obtain ⟨t', ht', -⟩ := ((hsound.run _).exec hexec).sound.totalSupply
      exact ⟨r', t, t', rfl, ht, ht', hle, hrate _ r' t t' hexec ht ht' (by decide)⟩

end Reserve

end VeilVault
