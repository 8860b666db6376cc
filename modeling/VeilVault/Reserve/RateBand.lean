/-
# VeilVault.Reserve.RateBand — where the borrow rate stays inside its band.

The rate curve is monotone and stays between its two ends as long as the utilization does not exceed
100 percent.  Utilization is the debt over the total supply, and the total supply is net of the
protocol's fees, which stay in the vault: once the vault holds less than the fees, utilization is
above 100 percent, and the last segment of the curve runs on past the maximum.
-/
import VeilVault.Reserve.ExchangeRate

namespace VeilVault

open Kit

namespace ReserveConfig

variable {c : ReserveConfig} {u v : ℕ} {w : U16}

/-! ## The curve -/

/-- The rate curve before it is cut to sixteen bits.  A division by zero is a flat segment. -/
def curve (c : ReserveConfig) (util : ℕ) : ℕ :=
  if util ≤ c.optimalUtilizationBps.toNat then
    c.minBorrowRateBps.toNat + util *
      (c.optimalBorrowRateBps.toNat - c.minBorrowRateBps.toNat) / c.optimalUtilizationBps.toNat
  else
    c.optimalBorrowRateBps.toNat + (util - c.optimalUtilizationBps.toNat) *
      (c.maxBorrowRateBps.toNat - c.optimalBorrowRateBps.toNat) /
        (10000 - c.optimalUtilizationBps.toNat)

/-- What `validate` says about the curve. -/
structure Ordered (c : ReserveConfig) : Prop where
  min_le : c.minBorrowRateBps.toNat ≤ c.optimalBorrowRateBps.toNat
  le_max : c.optimalBorrowRateBps.toNat ≤ c.maxBorrowRateBps.toNat
  kink_le : c.optimalUtilizationBps.toNat ≤ 10000

theorem ordered_of_validate (h : c.validate = .ok ()) : c.Ordered := by
  simp only [validate, bind_eq_ok, require_eq_ok, exists_const] at h
  obtain ⟨-, -, ⟨hmin, hmax⟩, hkink, -⟩ := h
  exact ⟨BitVec.le_def.mp hmin, BitVec.le_def.mp hmax, BitVec.le_def.mp hkink⟩

/-- Part of a rise, proportional to part of the way. -/
theorem rise_le {part way : ℕ} (rise : ℕ) (h : part ≤ way) : part * rise / way ≤ rise :=
  Nat.div_le_of_le_mul (Nat.mul_le_mul_right rise h)

theorem Ordered.curve_low (h : c.Ordered) (hu : u ≤ c.optimalUtilizationBps.toNat) :
    c.minBorrowRateBps.toNat ≤ c.curve u ∧ c.curve u ≤ c.optimalBorrowRateBps.toNat := by
  have hrise := rise_le (c.optimalBorrowRateBps.toNat - c.minBorrowRateBps.toNat) hu
  rw [curve, if_pos hu]
  refine ⟨Nat.le_add_right _ _, ?_⟩
  exact (Nat.add_le_add_left hrise _).trans_eq (Nat.add_sub_of_le h.min_le)

theorem Ordered.curve_high (h : c.Ordered) (hu : c.optimalUtilizationBps.toNat < u)
    (hle : u ≤ 10000) :
    c.optimalBorrowRateBps.toNat ≤ c.curve u ∧ c.curve u ≤ c.maxBorrowRateBps.toNat := by
  have hrise := rise_le (c.maxBorrowRateBps.toNat - c.optimalBorrowRateBps.toNat)
    (Nat.sub_le_sub_right hle c.optimalUtilizationBps.toNat)
  rw [curve, if_neg (Nat.not_le.mpr hu)]
  refine ⟨Nat.le_add_right _ _, ?_⟩
  exact (Nat.add_le_add_left hrise _).trans_eq (Nat.add_sub_of_le h.le_max)

/-- Up to full utilization the curve stays inside the band. -/
theorem Ordered.curve_band (h : c.Ordered) (hu : u ≤ 10000) :
    c.minBorrowRateBps.toNat ≤ c.curve u ∧ c.curve u ≤ c.maxBorrowRateBps.toNat := by
  rcases Nat.lt_or_ge c.optimalUtilizationBps.toNat u with hhigh | hlow
  · have hcurve := h.curve_high hhigh hu
    exact ⟨Nat.le_trans h.min_le hcurve.1, hcurve.2⟩
  · have hcurve := h.curve_low hlow
    exact ⟨hcurve.1, Nat.le_trans hcurve.2 h.le_max⟩

theorem Ordered.curve_mono (h : c.Ordered) (huv : u ≤ v) (hv : v ≤ 10000) :
    c.curve u ≤ c.curve v := by
  by_cases hlow : v ≤ c.optimalUtilizationBps.toNat
  · rw [curve, curve, if_pos hlow, if_pos (Nat.le_trans huv hlow)]
    apply Nat.add_le_add_left
    exact Nat.div_le_div_right (Nat.mul_le_mul_right _ huv)
  · by_cases hu : u ≤ c.optimalUtilizationBps.toNat
    · exact Nat.le_trans (h.curve_low hu).2 (h.curve_high (Nat.lt_of_not_le hlow) hv).1
    · rw [curve, curve, if_neg hlow, if_neg hu]
      apply Nat.add_le_add_left
      apply Nat.div_le_div_right
      exact Nat.mul_le_mul_right _ (Nat.sub_le_sub_right huv _)

/-- One segment of the curve in machine words: `part` of the `way` from `low` up to `high`. -/
theorem segment_ok {low high part : U64} (way : U64) (hlow : low.toNat < 2 ^ 16)
    (hhigh : high.toNat < 2 ^ 16) (hpart : part.toNat < 2 ^ 16) :
    ∃ rate : U16, (do
      let slopeNumerator ← okOr (checkedMul part (saturatingSub high low)) .mathOverflow
      if way = 0 then do
        let slope ← pure 0
        let rate ← okOr (checkedAdd low slope) .mathOverflow
        return rate.setWidth 16
      else do
        let slope ← okOr (checkedDiv slopeNumerator way) .mathOverflow
        let rate ← okOr (checkedAdd low slope) .mathOverflow
        return rate.setWidth 16 : Result U16) = .ok rate ∧
      rate.toNat =
        (low.toNat + part.toNat * (high.toNat - low.toNat) / way.toNat) % 2 ^ 16 := by
  have hprod : part.toNat * (saturatingSub high low).toNat < 2 ^ 32 := by
    rw [toNat_saturatingSub]
    calc part.toNat * (high.toNat - low.toNat)
        ≤ part.toNat * 2 ^ 16 := Nat.mul_le_mul_left _ (by omega)
      _ < 2 ^ 32 := by omega
  obtain ⟨m, hm, hmval⟩ := exists_checkedMul (Nat.lt_trans hprod (by decide))
  rw [← hmval] at hprod
  rw [toNat_saturatingSub] at hmval
  -- the source guards the division; without a way the segment is flat
  by_cases hway : way = 0
  · obtain ⟨rate, hrate, hval⟩ := exists_checkedAdd (x := low) (y := 0)
      (Nat.lt_trans hlow (by decide))
    refine ⟨rate.setWidth 16, ?_, ?_⟩
    · simp only [hm, okOr_some, ok_bind, if_pos hway, pure_bind, hrate]
      rfl
    · rw [BitVec.toNat_setWidth, hval, hway, show (0 : U64).toNat = 0 from rfl, Nat.div_zero]
  · obtain ⟨q, hq, hqval⟩ := exists_checkedDiv (x := m) (y := way)
      (Nat.pos_iff_ne_zero.mp (ne_zero_iff_toNat_pos.mpr hway))
    have hqle : q.toNat ≤ m.toNat := hqval ▸ Nat.div_le_self _ _
    obtain ⟨rate, hrate, hval⟩ := exists_checkedAdd (x := low) (y := q) (by omega)
    refine ⟨rate.setWidth 16, ?_, ?_⟩
    · simp only [hm, okOr_some, ok_bind, if_neg hway, hq, hrate]
      rfl
    · rw [BitVec.toNat_setWidth, hval, hqval, hmval]

/-- `borrow_rate` always succeeds, and is the curve cut to sixteen bits. -/
theorem borrowRate_curve (c : ReserveConfig) (w : U16) :
    ∃ rate, c.borrowRate w = .ok rate ∧ rate.toNat = c.curve w.toNat % 2 ^ 16 := by
  have hword (x : U16) : x.toU64.toNat < 2 ^ 16 := by
    rw [toNat_u16_toU64]
    exact x.isLt
  have hutil : w.toU64 ≤ c.optimalUtilizationBps.toU64 ↔
      w.toNat ≤ c.optimalUtilizationBps.toNat := by
    rw [BitVec.le_def, toNat_u16_toU64, toNat_u16_toU64]
  unfold borrowRate curve
  by_cases hlow : w.toNat ≤ c.optimalUtilizationBps.toNat
  · obtain ⟨rate, hrate, hval⟩ := segment_ok c.optimalUtilizationBps.toU64
      (hword c.minBorrowRateBps) (hword c.optimalBorrowRateBps) (hword w)
    refine ⟨rate, ?_, ?_⟩
    · simp only [if_pos (hutil.mpr hlow)]
      exact hrate
    · rw [hval, if_pos hlow]
      simp only [toNat_u16_toU64]
  -- past the optimum the second segment starts at the optimal rate
  · have hexcess : (saturatingSub w.toU64 c.optimalUtilizationBps.toU64).toNat < 2 ^ 16 := by
      rw [toNat_saturatingSub]
      exact Nat.lt_of_le_of_lt (Nat.sub_le _ _) (hword w)
    obtain ⟨rate, hrate, hval⟩ := segment_ok
      (saturatingSub bpsScaler c.optimalUtilizationBps.toU64)
      (hword c.optimalBorrowRateBps) (hword c.maxBorrowRateBps) hexcess
    refine ⟨rate, ?_, ?_⟩
    · simp only [if_neg (hutil.not.mpr hlow)]
      exact hrate
    · rw [hval, if_neg hlow]
      simp only [toNat_saturatingSub, toNat_u16_toU64, toNat_bpsScaler]

/-- Up to full utilization the band is inside sixteen bits, so nothing is cut. -/
theorem Ordered.borrowRate (h : c.Ordered) (hw : w.toNat ≤ 10000) :
    ∃ rate, c.borrowRate w = .ok rate ∧ rate.toNat = c.curve w.toNat := by
  obtain ⟨rate, hrate, hval⟩ := c.borrowRate_curve w
  refine ⟨rate, hrate, ?_⟩
  have hband := h.curve_band hw
  have hmax := c.maxBorrowRateBps.isLt
  rw [hval]
  exact Nat.mod_eq_of_lt (by omega)

/-- The first segment ends at the optimal rate, unless it is a single point. -/
theorem Ordered.curve_kink (h : c.Ordered) (hpos : 0 < c.optimalUtilizationBps.toNat) :
    c.curve c.optimalUtilizationBps.toNat = c.optimalBorrowRateBps.toNat := by
  rw [curve, if_pos (Nat.le_refl _), Nat.mul_div_cancel_left _ hpos]
  exact Nat.add_sub_of_le h.min_le

/-- An accepted configuration has a rate for every utilization up to 100 percent.  It is the value
of the curve, uncut, it does not fall when utilization rises, it stays between the two ends, and at
the kink it is the optimal rate. -/
theorem borrowRate_of_validate (hc : c.validate = .ok ()) :
    (∀ u v : U16, u ≤ v → v ≤ 10000 → ∃ p q, c.borrowRate u = .ok p ∧ c.borrowRate v = .ok q ∧
      c.minBorrowRateBps ≤ p ∧ p ≤ q ∧ q ≤ c.maxBorrowRateBps ∧
      p.toNat = c.curve u.toNat ∧ q.toNat = c.curve v.toNat) ∧
    (0 < c.optimalUtilizationBps →
      c.borrowRate c.optimalUtilizationBps = .ok c.optimalBorrowRateBps) := by
  have hordered := ordered_of_validate hc
  constructor
  · intro u v huv hv
    have hle : u.toNat ≤ v.toNat := BitVec.le_def.mp huv
    have hfull : v.toNat ≤ 10000 := BitVec.le_def.mp hv
    obtain ⟨p, hp, hpval⟩ := hordered.borrowRate (hle.trans hfull)
    obtain ⟨q, hq, hqval⟩ := hordered.borrowRate hfull
    have hmin := (hordered.curve_band (hle.trans hfull)).1
    have hmono := hordered.curve_mono hle hfull
    have hmax := (hordered.curve_band hfull).2
    rw [← hpval] at hmin hmono
    rw [← hqval] at hmono hmax
    exact ⟨p, q, hp, hq, BitVec.le_def.mpr hmin, BitVec.le_def.mpr hmono, BitVec.le_def.mpr hmax,
      hpval, hqval⟩
  · intro hpos
    obtain ⟨rate, hrate, hval⟩ := hordered.borrowRate hordered.kink_le
    rw [hordered.curve_kink (BitVec.lt_def.mp hpos)] at hval
    rw [hrate, BitVec.eq_of_toNat_eq hval]

end ReserveConfig

namespace Reserve

variable {r r' : Reserve} {s : U64}

/-- The plain configuration at utilizations on both sides of its kink. -/
theorem borrowRate_of_validate_plain : ∃ p q,
    plainReserve.config.borrowRate 4000 = .ok p ∧ plainReserve.config.borrowRate 9000 = .ok q ∧
      200 ≤ p ∧ p ≤ q ∧ q ≤ 2000 ∧ plainReserve.config.borrowRate 8000 = .ok 500 := by
  obtain ⟨hmono, hkink⟩ := ReserveConfig.borrowRate_of_validate (c := plainReserve.config) rfl
  obtain ⟨p, q, hp, hq, hmin, hle, hmax, -, -⟩ := hmono 4000 9000 (by decide) (by decide)
  exact ⟨p, q, hp, hq, hmin, hle, hmax, hkink (by decide)⟩

/-! ## Reachable reserves -/

/-- The reserves that `add_reserve` and any calls after it can lead to. -/
def Reachable (r : Reserve) : Prop :=
  ∃ (slot : U64) (market key mint : Pubkey) (params : InitReserveConfigParams) (r₀ : Reserve)
    (ops : List Op), create slot market key mint params = .ok r₀ ∧ r = ops.foldl tx r₀

theorem create_validated {market key mint : Pubkey} {params : InitReserveConfigParams}
    (h : create s market key mint params = .ok r) : r.config.validate = .ok () := by
  simp only [create, ReserveConfig.init, bind_eq_ok, pure_eq_ok] at h
  obtain ⟨c, ⟨⟨⟩, hc, rfl⟩, rfl⟩ := h
  exact hc

/-- A call keeps the configuration, or replaces it by one that passes the check. -/
theorem exec_config {op : Op} (h : r.exec op = .ok r') :
    r'.config = r.config ∨ r'.config.validate = .ok () := by
  cases op with
  | depositLiquidity a =>
      simp only [exec, bind_eq_ok, pure_eq_ok, Prod.exists] at h
      obtain ⟨r₁, m, hd, rfl⟩ := h
      obtain ⟨-, -, v, n, -, -, rfl⟩ := depositLiquidity_ok hd
      exact .inl rfl
  | redeemCollateral c =>
      simp only [exec, bind_eq_ok, pure_eq_ok, Prod.exists] at h
      obtain ⟨r₁, l, hd, rfl⟩ := h
      obtain ⟨-, v, n, -, -, rfl⟩ := redeemCollateral_ok hd
      exact .inl rfl
  | borrow a => exact .inl (keepsTerms_of_borrow h).config
  | repay a => exact .inl (keepsTerms_of_repay h).config
  | accrueInterest t => exact .inl (accrues_of_ok h).config
  | updateConfig c =>
      simp only [exec, ReserveConfig.update, bind_eq_ok, pure_eq_ok] at h
      obtain ⟨c', ⟨⟨⟩, hc, rfl⟩, rfl⟩ := h
      exact .inr hc

theorem Reachable.validated (h : r.Reachable) : r.config.validate = .ok () := by
  obtain ⟨slot, market, key, mint, params, r₀, ops, hcreate, rfl⟩ := h
  let Inv : Reserve → Prop := fun r => r.config.validate = .ok ()
  have hstep : ∀ q, ∀ op ∈ ops, Inv q → Inv (tx q op) := fun q op _ hq =>
    attemptStep_invariant hq fun q' hexec => by
      rcases exec_config hexec with hsame | hvalid
      · show q'.config.validate = .ok ()
        rw [hsame]
        exact hq
      · exact hvalid
  have hstart : Inv r₀ := create_validated hcreate
  exact foldl_invariant ops r₀ hstart hstep

/-! ## Utilization -/

/-- Utilization in whole percent, nothing for a pool without supply. -/
def utilizationPct (r : Reserve) : ℕ :=
  r.liquidity.borrowedAmountSf.toNat * 100 / r.liquidity.totalSupplyOrZero.toNat

/-- The pool is empty, or its utilization is at most 100 percent and can be computed. -/
def AtMostFull (r : Reserve) : Prop :=
  r.liquidity.totalSupplyOrZero.toNat = 0 ∨
    (r.liquidity.borrowedAmountSf.toNat * 100 < 2 ^ 128 ∧
      r.liquidity.borrowedAmountSf.toNat * 100 < 101 * r.liquidity.totalSupplyOrZero.toNat)

theorem AtMostFull.utilizationPct_le (h : r.AtMostFull) : r.utilizationPct ≤ 100 := by
  rcases h with hzero | ⟨-, hle⟩
  · rw [utilizationPct, hzero, Nat.div_zero]
    exact Nat.zero_le _
  · apply Nat.le_of_lt_succ
    exact Nat.div_lt_of_lt_mul (hle.trans_eq (Nat.mul_comm _ _))

/-- Then the utilization is computed. -/
theorem AtMostFull.utilizationRate (h : r.AtMostFull) :
    ∃ u, r.liquidity.utilizationRate = .ok u ∧ u.toNat = r.utilizationPct := by
  unfold ReserveLiquidity.utilizationRate
  by_cases hzero : r.liquidity.totalSupplyOrZero = 0
  · refine ⟨0, by simp only [if_pos hzero]; rfl, ?_⟩
    rw [utilizationPct, hzero]
    exact (Nat.div_zero _).symm
  · rcases h with hz | ⟨hfit, -⟩
    · exact absurd (BitVec.eq_of_toNat_eq hz) hzero
    · obtain ⟨m, hm, hmval⟩ := exists_checkedMul (x := r.liquidity.borrowedAmountSf)
        (y := percentScaler) hfit
      obtain ⟨u, hu, huval⟩ := exists_checkedDiv (x := m) (y := r.liquidity.totalSupplyOrZero)
        (Nat.pos_iff_ne_zero.mp (ne_zero_iff_toNat_pos.mpr hzero))
      refine ⟨u, ?_, ?_⟩
      · simp only [if_neg hzero, hm, orAbort, orFail_some, ok_bind, hu, okOr_some]
      · rw [huval, hmval]
        rfl

/-- The borrow rate is the curve at the utilization, and nothing is cut off. -/
theorem AtMostFull.currentBorrowRate (h : r.AtMostFull) (hc : r.config.Ordered) :
    ∃ rate, r.currentBorrowRate = .ok rate ∧
      rate.toNat = r.config.curve (r.utilizationPct * 100) := by
  obtain ⟨u, hu, huval⟩ := h.utilizationRate
  have hle := h.utilizationPct_le
  have hhundred : (100 : U128).toNat = 100 := rfl
  obtain ⟨bps, hbps, hbpsval⟩ := exists_checkedMul (x := u) (y := 100) (by
    rw [hhundred]
    omega)
  have hcut : (bps.setWidth 16 : U16).toNat = r.utilizationPct * 100 := by
    rw [BitVec.toNat_setWidth, hbpsval, huval, hhundred]
    exact Nat.mod_eq_of_lt (by omega)
  obtain ⟨rate, hrate, hval⟩ := hc.borrowRate (w := bps.setWidth 16) (by omega)
  refine ⟨rate, ?_, ?_⟩
  · rw [Reserve.currentBorrowRate, hu, ok_bind, hbps, orAbort, orFail_some, ok_bind, hrate]
  · rw [hval, hcut]

/-- In every reachable reserve whose utilization is at most 100 percent the borrow rate exists and
is inside the band, and of two such reserves with the same configuration and total supply the one
with more borrowed pays no less. -/
theorem currentBorrowRate_in_band (hr : r.Reachable) (hfull : r.AtMostFull) :
    (∃ rate, r.currentBorrowRate = .ok rate ∧ r.config.minBorrowRateBps ≤ rate ∧
      rate ≤ r.config.maxBorrowRateBps) ∧
    ∀ r' : Reserve, r'.Reachable → r'.AtMostFull → r'.config = r.config →
      r'.liquidity.totalSupply = r.liquidity.totalSupply →
      r.liquidity.borrowedAmountSf ≤ r'.liquidity.borrowedAmountSf →
      ∀ rate rate', r.currentBorrowRate = .ok rate → r'.currentBorrowRate = .ok rate' →
        rate ≤ rate' := by
  -- every configuration of a reachable reserve has passed its validation
  have hordered := ReserveConfig.ordered_of_validate hr.validated
  have hpct := hfull.utilizationPct_le
  obtain ⟨rate, hrate, hval⟩ := hfull.currentBorrowRate hordered
  constructor
  · have hband := hordered.curve_band (u := r.utilizationPct * 100) (by omega)
    rw [← hval] at hband
    exact ⟨rate, hrate, BitVec.le_def.mpr hband.1, BitVec.le_def.mpr hband.2⟩
  · intro r' hr' hfull' hconfig htotal hborrowed p p' hp hp'
    obtain ⟨rate', hrate', hval'⟩ := hfull'.currentBorrowRate (hconfig ▸ hordered)
    rw [hrate] at hp
    rw [hrate'] at hp'
    cases hp
    cases hp'
    rw [BitVec.le_def, hval, hval', hconfig]
    -- the same supply under a larger debt is a higher utilization
    have hmore : r.utilizationPct ≤ r'.utilizationPct := by
      rw [utilizationPct, utilizationPct, ReserveLiquidity.totalSupplyOrZero,
        ReserveLiquidity.totalSupplyOrZero, htotal]
      exact Nat.div_le_div_right (Nat.mul_le_mul_right _ (BitVec.le_def.mp hborrowed))
    have hpct' := hfull'.utilizationPct_le
    exact hordered.curve_mono (Nat.mul_le_mul_right _ hmore) (by omega)

theorem reachable_plainReserve (ops : List Op) : (ops.foldl tx plainReserve).Reachable :=
  ⟨_, _, _, _, _, _, ops, create_plainReserve, rfl⟩

/-- The lent reserve with more of its 1000 units lent. -/
def fullerReserve : Reserve := [Op.depositLiquidity 1000, .borrow 900].foldl tx plainReserve

theorem currentBorrowRate_in_band_lent : ∃ rate rate',
    lentReserve.currentBorrowRate = .ok rate ∧ fullerReserve.currentBorrowRate = .ok rate' ∧
      200 ≤ rate ∧ rate ≤ rate' := by
  have hlent : lentReserve.Reachable := reachable_plainReserve _
  have hfuller : fullerReserve.Reachable := reachable_plainReserve _
  obtain ⟨⟨rate, hrate, hmin, -⟩, hmono⟩ :=
    currentBorrowRate_in_band hlent (.inr (by decide))
  obtain ⟨⟨rate', hrate', -, -⟩, -⟩ :=
    currentBorrowRate_in_band hfuller (.inr (by decide))
  exact ⟨rate, rate', hrate, hrate', hmin, hmono fullerReserve hfuller (.inr (by decide))
    (by decide) (by decide +kernel) (by decide +kernel) rate rate' hrate hrate'⟩

/-- Half lent for ten thousand years, and all that was left in the vault redeemed. -/
def drained : List Op :=
  [.depositLiquidity 1000000, .borrow 500000, .accrueInterest 630720000007, .redeemCollateral 2596]

/-- At 101 percent the rate is 2075 basis points, above the maximum of 2000. -/
theorem not_forall_currentBorrowRate_in_band :
    ¬ ((∀ r : Reserve, r.Reachable → ∃ rate, r.currentBorrowRate = .ok rate ∧
        r.config.minBorrowRateBps ≤ rate ∧ rate ≤ r.config.maxBorrowRateBps) ∧
      ∀ r r' : Reserve, r.Reachable → r'.Reachable → r'.config = r.config →
        r'.liquidity.totalSupply = r.liquidity.totalSupply →
        r.liquidity.borrowedAmountSf ≤ r'.liquidity.borrowedAmountSf →
        ∀ rate rate', r.currentBorrowRate = .ok rate → r'.currentBorrowRate = .ok rate' →
          rate ≤ rate') := by
  rintro ⟨hband, -⟩
  obtain ⟨rate, hrate, -, hmax⟩ := hband _ (reachable_plainReserve drained)
  have hrun : (drained.foldl tx plainReserve).currentBorrowRate.toOption.any fun rate =>
      (drained.foldl tx plainReserve).config.maxBorrowRateBps < rate := by decide
  obtain ⟨rate', hrate', habove⟩ := toOption_any.mp hrun
  rw [hrate] at hrate'
  cases hrate'
  exact absurd (BitVec.lt_def.mp (of_decide_eq_true habove))
    (Nat.not_lt.mpr (BitVec.le_def.mp hmax))

end Reserve

end VeilVault
