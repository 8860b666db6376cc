/-
# VeilVault.Reserve.RoundTrip — a deposit redeemed at once.

While cTokens are outstanding both conversions use the pool's rate and both round down, so whoever
deposits and redeems gets at most the deposit back.  Without cTokens the rate is one to one whatever
the pool holds: interest that accrued while nobody held a cToken goes to the next depositor.
-/
import Mathlib.Algebra.Order.Field.Rat
import Mathlib.Data.Nat.Cast.Order.Field
import Mathlib.Tactic.FieldSimp
import VeilVault.Reserve.Conversions

namespace VeilVault

open Kit

namespace Reserve

variable {r r₁ r₂ : Reserve} {a c x : U64}

/-- What comes back: the whole pool to the first holder, and to a later one at most the deposit,
short of it by the two roundings. -/
theorem Sound.roundTrip (h : Sound r) (hd : r.depositLiquidity a = .ok (r₁, c)) (hc : 0 < c)
    (hred : r₁.redeemCollateral c = .ok (r₂, x)) :
    (r.pool.shares = 0 → x.toNat = r.pool.assets + a.toNat) ∧
    (0 < r.pool.shares → x.toNat ≤ a.toNat ∧
      a.toNat * r.pool.shares < (x.toNat + 1) * r.pool.shares + r.pool.assets) := by
  obtain ⟨hassets, hshares, hfit⟩ := pool_depositLiquidity hd
  have h₁ := (h.depositLiquidity hd).sound
  have hpos₁ : 0 < r₁.pool.shares := by
    have := BitVec.lt_def.mp hc
    have hz : (0 : U64).toNat = 0 := rfl
    omega
  have hx (hlt : c.toNat * (r.pool.assets + a.toNat) / (r.pool.shares + c.toNat) < 2 ^ 64) :
      x.toNat = c.toNat * (r.pool.assets + a.toNat) / (r.pool.shares + c.toNat) := by
    rw [h₁.toSolvent.paid hred, SharePool.assetsFor, hassets, hshares, Nat.mod_eq_of_lt hlt]
  constructor
  · intro hzero
    -- the first holder owns every share, and the redemption pays the whole pool
    obtain rfl := h.toSolvent.minted_first hzero hd
    have hall : c.toNat * (r.pool.assets + c.toNat) / (r.pool.shares + c.toNat) =
        r.pool.assets + c.toNat := by
      rw [hzero, Nat.zero_add]
      exact Nat.mul_div_cancel_left _ (by omega)
    rw [hall] at hx
    exact hx hfit
  · intro hpos
    have hm : c.toNat = a.toNat * r.pool.shares / r.pool.assets := h.toSolvent.minted hpos hd
    have hsolvent : r.pool.shares ≤ r.pool.assets := h.pool_solvent
    -- one floor when the cTokens are issued, and one when they are redeemed
    have hfloor := Nat.div_mul_le_self (a.toNat * r.pool.shares) r.pool.assets
    have hnext := Nat.lt_div_mul_add (a := a.toNat * r.pool.shares) (b := r.pool.assets) (by omega)
    rw [← hm] at hfloor hnext
    have hle := SharePool.roundTrip_le hfloor
    have hback := SharePool.roundTrip_lt hpos hnext
    have hval := hx (Nat.lt_of_le_of_lt hle a.isLt)
    rw [← hval] at hle hback
    exact ⟨hle, hback⟩

/-- After any history: a deposit redeemed at once returns at most itself, and falls short by at most
the price of a cToken and one unit, exactly when cTokens were outstanding or the pool had
nothing. -/
theorem roundTrip_iff {slot : U64} {market key mint : Pubkey} {params : InitReserveConfigParams}
    {r₀ : Reserve} (hinit : create slot market key mint params = .ok r₀) (ops : List Op)
    (hdeposit : (ops.foldl tx r₀).depositLiquidity a = .ok (r₁, c)) (hc : 0 < c)
    (hredeem : r₁.redeemCollateral c = .ok (r₂, x)) :
    ∃ t, (ops.foldl tx r₀).liquidity.totalSupply = .ok t ∧
      ((x.toNat ≤ a.toNat ∧
        (0 < (ops.foldl tx r₀).collateral.mintTotalSupply →
          (a.toNat : ℚ) - t.toNat / (ops.foldl tx r₀).collateral.mintTotalSupply.toNat - 1 ≤
            x.toNat)) ↔
        (0 < (ops.foldl tx r₀).collateral.mintTotalSupply ∨ t = 0)) := by
  have hsound := (sound_create hinit).run ops
  generalize ops.foldl tx r₀ = r at hdeposit hsound ⊢
  obtain ⟨t, ht, hassets⟩ := hsound.totalSupply
  refine ⟨t, ht, ?_⟩
  obtain ⟨hfirst, hlater⟩ := hsound.roundTrip hdeposit hc hredeem
  have hshares : r.pool.shares = r.collateral.mintTotalSupply.toNat := rfl
  have hissued : 0 < r.collateral.mintTotalSupply ↔ 0 < r.pool.shares := BitVec.lt_def
  rw [hissued]
  rcases Nat.eq_zero_or_pos r.pool.shares with hzero | hpos
  · have hx := hfirst hzero
    -- the first holder is paid what was there already, so it has to be nothing
    have hnothing : t = 0 ↔ r.pool.assets = 0 := by
      rw [← hassets]
      exact BitVec.toNat_inj.symm
    rw [hnothing]
    omega
  · obtain ⟨hle, hback⟩ := hlater hpos
    refine iff_of_true ⟨hle, fun _ => ?_⟩ (.inl hpos)
    have hpos' : (0 : ℚ) < r.pool.shares := Nat.cast_pos.mpr hpos
    have hback' : (a.toNat : ℚ) * r.pool.shares ≤
        (x.toNat + 1) * r.pool.shares + r.pool.assets := by
      exact_mod_cast Nat.le_of_lt hback
    rw [← hshares, hassets, sub_sub, sub_le_iff_le_add]
    apply le_of_mul_le_mul_right _ hpos'
    calc (a.toNat : ℚ) * r.pool.shares
        ≤ (x.toNat + 1) * r.pool.shares + r.pool.assets := hback'
      _ = (x.toNat + (r.pool.assets / r.pool.shares + 1)) * r.pool.shares := by
          field_simp
          ring

/-- The lent reserve after ten years: a cToken is worth more than one unit. -/
def accruedReserve : Reserve :=
  [Op.depositLiquidity 1000, .borrow 400, .accrueInterest 630720007].foldl tx plainReserve

theorem roundTrip_iff_accrued : ∃ (r₁ r₂ : Reserve) (c x : U64) (t : U128),
    accruedReserve.depositLiquidity 500 = .ok (r₁, c) ∧ r₁.redeemCollateral c = .ok (r₂, x) ∧
      accruedReserve.liquidity.totalSupply = .ok t ∧ x.toNat ≤ 500 := by
  have hok : (accruedReserve.depositLiquidity 500).toOption.any (fun p =>
      0 < p.2 && (p.1.redeemCollateral p.2).toOption.any fun _ => true) = true := by decide
  obtain ⟨⟨r₁, c⟩, hd, hok⟩ := toOption_any.mp hok
  obtain ⟨hc, hok⟩ := Bool.and_eq_true_iff.mp hok
  obtain ⟨⟨r₂, x⟩, hr, -⟩ := toOption_any.mp hok
  obtain ⟨t, ht, hiff⟩ := roundTrip_iff create_plainReserve
    [.depositLiquidity 1000, .borrow 400, .accrueInterest 630720007] hd (of_decide_eq_true hc) hr
  exact ⟨r₁, r₂, c, x, t, hd, hr, ht, (hiff.mpr (.inl (by decide))).1⟩

/-- A reserve that always charges 100% a year, a tenth of it for the protocol. -/
def steepParams : InitReserveConfigParams where
  status := 0
  minBorrowRateBps := 10000
  optimalBorrowRateBps := 10000
  maxBorrowRateBps := 10000
  optimalUtilizationBps := 8000
  loanToValuePct := 75
  liquidationThresholdPct := 85
  liquidationBonusPct := 500
  depositLimit := 100000000
  borrowLimit := 100000000
  protocolFee := 1000
  pythOracle := .key 11

/-- Ten years of interest, most of the debt repaid, every cToken redeemed, one more year. -/
def abandoned : List Op :=
  [.depositLiquidity 1000000, .borrow 500000, .accrueInterest 630720007, .repay 5400000,
    .redeemCollateral 1000000, .accrueInterest 693792007]

/-- The next depositor gets the orphaned interest. -/
theorem not_forall_roundTrip : ¬ ∀ (slot : U64) (market key mint : Pubkey)
    (params : InitReserveConfigParams) (r₀ : Reserve) (ops : List Op) (a c x : U64) (t : U128)
    (r₁ r₂ : Reserve), create slot market key mint params = .ok r₀ →
    (ops.foldl tx r₀).depositLiquidity a = .ok (r₁, c) → 0 < c →
    r₁.redeemCollateral c = .ok (r₂, x) → (ops.foldl tx r₀).liquidity.totalSupply = .ok t →
    x.toNat ≤ a.toNat ∧ (0 < (ops.foldl tx r₀).collateral.mintTotalSupply →
      (a.toNat : ℚ) - t.toNat / (ops.foldl tx r₀).collateral.mintTotalSupply.toNat - 1 ≤
        x.toNat) := by
  intro hall
  have hrun : ((create 7 (.key 2) (.key 3) (.key 5) steepParams).toOption.any fun r₀ =>
      (abandoned.foldl tx r₀).liquidity.totalSupply.toOption.any fun _ =>
        ((abandoned.foldl tx r₀).depositLiquidity 1000).toOption.any fun p =>
          0 < p.2 && (p.1.redeemCollateral p.2).toOption.any fun q => 1000 < q.2.toNat) = true := by
    decide
  obtain ⟨r₀, hinit, hrun⟩ := toOption_any.mp hrun
  obtain ⟨t, ht, hrun⟩ := toOption_any.mp hrun
  obtain ⟨⟨r₁, c⟩, hd, hrun⟩ := toOption_any.mp hrun
  obtain ⟨hc, hrun⟩ := Bool.and_eq_true_iff.mp hrun
  obtain ⟨⟨r₂, x⟩, hr, hx⟩ := toOption_any.mp hrun
  have hle := (hall 7 _ _ _ _ _ _ _ _ _ _ _ _ hinit hd (of_decide_eq_true hc) hr ht).1
  exact absurd hle (Nat.not_le.mpr (of_decide_eq_true hx))

end Reserve

end VeilVault
