/-
# VeilVault.Reserve.Methods — what each reserve method can do, exactly.

Every method as a statement about natural numbers: when it succeeds, and what it leaves.  The
machine words, the order of the checks and the error codes stay behind in this file.
-/
import VeilVault.State.Reserve

namespace VeilVault

open Kit

namespace ReserveLiquidity

variable {l l' : ReserveLiquidity} {a : U64}

/-! ## Moving liquidity -/

theorem deposit_ok : l.deposit a = .ok l' ↔
    ∃ v : U64, v.toNat = l.availableAmount.toNat + a.toNat ∧
      l' = { l with availableAmount := v } := by
  simp only [deposit, bind_eq_ok, okOr_eq_ok, checkedAdd_eq_some, pure_eq_ok]

theorem withdraw_ok : l.withdraw a = .ok l' ↔
    ∃ v : U64, v.toNat + a.toNat = l.availableAmount.toNat ∧
      l' = { l with availableAmount := v } := by
  simp only [withdraw, bind_eq_ok, require_eq_ok, okOr_eq_ok, checkedSub_eq_some, pure_eq_ok,
    exists_const, ge_iff_le, BitVec.le_def]
  constructor
  · rintro ⟨-, v, hv, rfl⟩
    exact ⟨v, hv, rfl⟩
  · rintro ⟨v, hv, rfl⟩
    exact ⟨by omega, v, hv, rfl⟩

theorem borrow_ok : l.borrow a = .ok l' ↔
    ∃ (v : U64) (d : U128), v.toNat + a.toNat = l.availableAmount.toNat ∧
      d.toNat = l.borrowedAmountSf.toNat + a.toNat ∧
      l' = { l with availableAmount := v, borrowedAmountSf := d } := by
  simp only [borrow, bind_eq_ok, require_eq_ok, okOr_eq_ok, checkedSub_eq_some, checkedAdd_eq_some,
    pure_eq_ok, exists_const, ge_iff_le, BitVec.le_def, toNat_toU128]
  constructor
  · rintro ⟨-, v, hv, d, hd, rfl⟩
    exact ⟨v, d, hv, hd, rfl⟩
  · rintro ⟨v, d, hv, hd, rfl⟩
    exact ⟨by omega, v, hv, d, hd, rfl⟩

theorem repay_ok : l.repay a = .ok l' ↔
    ∃ (v : U64) (d : U128), v.toNat = l.availableAmount.toNat + a.toNat ∧
      d.toNat + a.toNat = l.borrowedAmountSf.toNat ∧
      l' = { l with availableAmount := v, borrowedAmountSf := d } := by
  simp only [repay, bind_eq_ok, okOr_eq_ok, checkedSub_eq_some, checkedAdd_eq_some, pure_eq_ok,
    toNat_toU128]
  constructor
  · rintro ⟨d, hd, v, hv, rfl⟩
    exact ⟨v, d, hv, hd, rfl⟩
  · rintro ⟨v, d, hv, hd, rfl⟩
    exact ⟨d, hd, v, hv, rfl⟩

/-! ## Interest -/

/-- The growth of one accrual, times `rateScale`: `bps` a year over `n` slots. -/
def periodRate (bps n : ℕ) : ℕ := bps * n * 10 ^ 12 / 63072000 / 10000

/-- One basis point over one slot already rounds up from nothing. -/
theorem periodRate_pos {bps n : ℕ} (hbps : 0 < bps) (hn : 0 < n) : 0 < periodRate bps n := by
  have hprod : 1 ≤ bps * n := Nat.mul_pos hbps hn
  unfold periodRate
  omega

theorem accuredInterest_ok {bps n fee : U64} (h : l.accuredInterest bps n fee = .ok l') :
    0 < n.toNat ∧ 0 < bps.toNat ∧
    periodRate bps.toNat n.toNat * l.borrowedAmountSf.toNat < 2 ^ 128 ∧
    ∃ d i f : U128,
      d.toNat = l.borrowedAmountSf.toNat +
        periodRate bps.toNat n.toNat * l.borrowedAmountSf.toNat / 10 ^ 12 ∧
      i.toNat = l.cumulativeBorrowRateSf.toNat +
        periodRate bps.toNat n.toNat * l.cumulativeBorrowRateSf.toNat / 10 ^ 12 ∧
      f.toNat = l.accumulatedProtocolFees.toNat +
        periodRate bps.toNat n.toNat * l.borrowedAmountSf.toNat / 10 ^ 12 * fee.toNat / 10000 ∧
      l' = { l with borrowedAmountSf := d, cumulativeBorrowRateSf := i,
                    accumulatedProtocolFees := f } := by
  simp only [accuredInterest, bind_eq_ok, require_eq_ok, okOr_eq_ok, Option.bind_eq_bind,
    Option.bind_eq_some_iff, checkedMul_eq_some, checkedDiv_eq_some, checkedAdd_eq_some,
    pure_eq_ok, exists_const, toNat_toU128, toNat_rateScale, toNat_slotsPerYear, toNat_bpsScaler,
    gt_iff_lt, BitVec.lt_def] at h
  obtain ⟨hn, hbps, rate, ⟨m₁, hm₁, m₂, hm₂, m₃, ⟨-, hm₃⟩, -, hrate⟩, debt, ⟨m₄, hm₄, -, hdebt⟩,
    d, hd, fee', ⟨m₅, hm₅, -, hfee⟩, f, hf, acc, ⟨m₆, hm₆, -, hacc⟩, i, hi, rfl⟩ := h
  have hr : rate.toNat = periodRate bps.toNat n.toNat := by
    rw [hrate, hm₃, hm₂, hm₁, periodRate]
  refine ⟨hn, hbps, ?_, d, i, f, ?_, ?_, ?_, rfl⟩
  · rw [← hr, ← hm₄]
    exact m₄.isLt
  · rw [hd, hdebt, hm₄, hr]
  · rw [hi, hacc, hm₆, hr]
  · rw [hf, hfee, hm₅, hdebt, hm₄, hr]

/-! ## Totals -/

theorem totalSupply_ok {t : U128} : l.totalSupply = .ok t ↔
    l.availableAmount.toNat + l.borrowedAmountSf.toNat < 2 ^ 128 ∧
      t.toNat + l.accumulatedProtocolFees.toNat =
        l.availableAmount.toNat + l.borrowedAmountSf.toNat := by
  simp only [totalSupply, okOr_eq_ok, Option.bind_eq_bind, Option.bind_eq_some_iff,
    checkedAdd_eq_some, checkedSub_eq_some, toNat_toU128]
  constructor
  · rintro ⟨s, hs, ht⟩
    exact ⟨hs ▸ s.isLt, by omega⟩
  · rintro ⟨hfit, ht⟩
    exact ⟨BitVec.ofNatLT _ hfit, BitVec.toNat_ofNatLT _ hfit, by
      rw [BitVec.toNat_ofNatLT]
      exact ht⟩

/-- The total depends on the sum of what is there and what is owed, not on the split. -/
theorem totalSupply_congr (hsum : l'.availableAmount.toNat + l'.borrowedAmountSf.toNat =
      l.availableAmount.toNat + l.borrowedAmountSf.toNat)
    (hfees : l'.accumulatedProtocolFees = l.accumulatedProtocolFees) :
    l'.totalSupply = l.totalSupply := by
  have hiff (t : U128) : l'.totalSupply = .ok t ↔ l.totalSupply = .ok t := by
    rw [totalSupply_ok, totalSupply_ok, hsum, hfees]
  have herr (m : ReserveLiquidity) : (∃ t, m.totalSupply = .ok t) ∨
      m.totalSupply = .error (.lending .mathOverflow) := by
    unfold totalSupply okOr orFail
    cases (do
      let sum ← checkedAdd m.availableAmount.toU128 m.borrowedAmountSf
      checkedSub sum m.accumulatedProtocolFees : Option U128) with
    | none => exact .inr rfl
    | some t => exact .inl ⟨t, rfl⟩
  rcases herr l with ⟨t, ht⟩ | he
  · rw [ht, hiff, ht]
  · rcases herr l' with ⟨t, ht⟩ | he'
    · rw [(hiff t).mp ht] at he
      cases he
    · rw [he, he']

/-- The unchecked product bounds the debt of every pool that has a supply. -/
theorem utilizationRate_ok {u : U128} (h : l.utilizationRate = .ok u) :
    l.totalSupplyOrZero = 0 ∨ l.borrowedAmountSf.toNat * 100 < 2 ^ 128 := by
  by_cases hz : l.totalSupplyOrZero = 0
  · exact .inl hz
  · right
    simp only [utilizationRate, if_neg hz, bind_eq_ok, orAbort_eq_ok, checkedMul_eq_some,
      toNat_percentScaler] at h
    obtain ⟨m, hm, -⟩ := h
    rw [← hm]
    exact m.isLt

theorem totalSupplyOrZero_of_ok {t : U128} (h : l.totalSupply = .ok t) :
    l.totalSupplyOrZero = t := by
  rw [totalSupplyOrZero, h]
  rfl

end ReserveLiquidity

namespace Reserve

variable {r r' : Reserve} {s a : U64}

/-- A new reserve holds nothing, owes nothing and has issued nothing. -/
theorem create_ok {market key mint : Pubkey} {params : InitReserveConfigParams}
    (h : create s market key mint params = .ok r) :
    r.liquidity = ReserveLiquidity.init mint (.liquidityVault key) (.feeVault key) ∧
      r.collateral.mintTotalSupply = 0 := by
  simp only [create, bind_eq_ok, pure_eq_ok] at h
  obtain ⟨config, -, rfl⟩ := h
  exact ⟨rfl, rfl⟩

theorem updateConfig_ok {config : InitReserveConfigParams} (h : r.updateConfig config = .ok r') :
    r'.liquidity = r.liquidity ∧ r'.collateral = r.collateral ∧
      r'.lastUpdateSlot = r.lastUpdateSlot := by
  simp only [updateConfig, bind_eq_ok, pure_eq_ok] at h
  obtain ⟨c, -, rfl⟩ := h
  exact ⟨rfl, rfl, rfl⟩

theorem borrow_ok : r.borrow a = .ok r' ↔
    r.borrowLimitCrossed = false ∧
      ∃ l', r.liquidity.borrow a = .ok l' ∧ r' = { r with liquidity := l' } := by
  simp only [borrow, bind_eq_ok, require_eq_ok, pure_eq_ok, exists_const]

theorem repay_ok : r.repay a = .ok r' ↔
    ∃ l', r.liquidity.repay a = .ok l' ∧ r' = { r with liquidity := l' } := by
  simp only [repay, bind_eq_ok, pure_eq_ok]

theorem available_repay (h : r.repay a = .ok r') :
    r'.liquidity.availableAmount.toNat = r.liquidity.availableAmount.toNat + a.toNat := by
  obtain ⟨l', hl, rfl⟩ := repay_ok.mp h
  obtain ⟨v, d, hv, -, rfl⟩ := ReserveLiquidity.repay_ok.mp hl
  exact hv

theorem depositLiquidity_ok {m : U64} (h : r.depositLiquidity a = .ok (r', m)) :
    (∃ t, r.liquidity.totalSupply = .ok t ∧ t.toNat + a.toNat < 2 ^ 64) ∧
    r.collateralExchangeRate.liquidityToCollateral a = .ok m ∧
    ∃ v n : U64, v.toNat = r.liquidity.availableAmount.toNat + a.toNat ∧
      n.toNat = r.collateral.mintTotalSupply.toNat + m.toNat ∧
      r' = { r with
        liquidity := { r.liquidity with availableAmount := v }
        collateral := { r.collateral with mintTotalSupply := n } } := by
  simp only [depositLiquidity, bind_eq_ok, require_eq_ok, exists_const, pure_eq_ok,
    Prod.mk.injEq, ReserveLiquidity.deposit_ok, ReserveCollateral.mint, okOr_eq_ok,
    checkedAdd_eq_some] at h
  obtain ⟨t, ht, hlimit, m', hm, l', ⟨v, hv, rfl⟩, c', ⟨n, hn, rfl⟩, rfl, rfl⟩ := h
  refine ⟨⟨t, ht, ?_⟩, hm, v, n, hv, hn, rfl⟩
  have hlt := r.config.depositLimit.isLt
  rw [BitVec.le_def, toNat_saturatingAdd, toNat_toU128, toNat_toU128] at hlimit
  omega

theorem redeemCollateral_ok {c l : U64} (h : r.redeemCollateral c = .ok (r', l)) :
    r.collateralExchangeRate.collateralToLiquidity c = .ok l ∧
    ∃ v n : U64, v.toNat + l.toNat = r.liquidity.availableAmount.toNat ∧
      n.toNat + c.toNat = r.collateral.mintTotalSupply.toNat ∧
      r' = { r with
        liquidity := { r.liquidity with availableAmount := v }
        collateral := { r.collateral with mintTotalSupply := n } } := by
  simp only [redeemCollateral, bind_eq_ok, require_eq_ok, exists_const, pure_eq_ok,
    Prod.mk.injEq, ReserveLiquidity.withdraw_ok, ReserveCollateral.burn, okOr_eq_ok,
    checkedSub_eq_some] at h
  obtain ⟨l', hl, c', ⟨-, n, hn, rfl⟩, q', ⟨v, hv, rfl⟩, rfl, rfl⟩ := h
  exact ⟨hl, v, n, hv, hn, rfl⟩

/-- An accrual does nothing when no slot has passed; otherwise it stamps the slot, and grows debt
and index when the curve gives a positive rate. -/
theorem accrueInterest_ok (h : r.accrueInterest s = .ok r') :
    (s.toNat ≤ r.lastUpdateSlot.toNat ∧ r' = r) ∨
    (r.lastUpdateSlot.toNat < s.toNat ∧ ∃ bps : U16, r.currentBorrowRate = .ok bps ∧
      ((bps.toNat = 0 ∧ r' = { r with lastUpdateSlot := s }) ∨
       (0 < bps.toNat ∧ ∃ l',
          r.liquidity.accuredInterest bps.toU64 (saturatingSub s r.lastUpdateSlot)
            r.config.protocolFee.toU64 = .ok l' ∧
          r' = { r with liquidity := l', lastUpdateSlot := s }))) := by
  have hsub := toNat_saturatingSub s r.lastUpdateSlot
  unfold accrueInterest at h
  by_cases hz : saturatingSub s r.lastUpdateSlot = 0
  · simp only [if_pos hz, pure_eq_ok] at h
    rw [hz] at hsub
    have hzero : (0 : U64).toNat = 0 := rfl
    exact .inl ⟨by omega, h⟩
  · have hpos := ne_zero_iff_toNat_pos.mpr hz
    by_cases hb : ∃ bps : U16, r.currentBorrowRate = .ok bps
    · obtain ⟨bps, hbps⟩ := hb
      refine .inr ⟨by omega, bps, hbps, ?_⟩
      by_cases hp : bps > 0
      · simp only [if_neg hz, hbps, ok_bind, if_pos hp, bind_eq_ok, pure_eq_ok] at h
        exact .inr ⟨BitVec.lt_def.mp hp, h⟩
      · simp only [if_neg hz, hbps, ok_bind, if_neg hp, pure_bind, pure_eq_ok] at h
        exact .inl ⟨Nat.eq_zero_of_not_pos fun h0 => hp (BitVec.lt_def.mpr h0), h⟩
    · simp only [if_neg hz, bind_eq_ok] at h
      obtain ⟨bps, hbps, -⟩ := h
      exact absurd ⟨bps, hbps⟩ hb

theorem currentBorrowRate_ok {bps : U16} (h : r.currentBorrowRate = .ok bps) :
    r.liquidity.totalSupplyOrZero = 0 ∨ r.liquidity.borrowedAmountSf.toNat * 100 < 2 ^ 128 := by
  simp only [currentBorrowRate, bind_eq_ok] at h
  obtain ⟨u, hu, -⟩ := h
  exact ReserveLiquidity.utilizationRate_ok hu

theorem accrueInterest_current (h : s.toNat ≤ r.lastUpdateSlot.toNat) :
    r.accrueInterest s = .ok r := by
  have hz : saturatingSub s r.lastUpdateSlot = 0 := by
    rw [← BitVec.toNat_inj, toNat_saturatingSub]
    exact Nat.sub_eq_zero_of_le h
  rw [accrueInterest]
  exact if_pos hz

/-! ## What accrual, borrowing and repaying leave alone -/

/-- What an accrual to slot `s` does not touch, and the two things it never lowers. -/
structure Accrues (s : U64) (r r' : Reserve) : Prop where
  config : r'.config = r.config
  collateral : r'.collateral = r.collateral
  lendingMarket : r'.lendingMarket = r.lendingMarket
  available : r'.liquidity.availableAmount = r.liquidity.availableAmount
  price : r'.liquidity.marketPriceSf = r.liquidity.marketPriceSf
  slot_le : s.toNat ≤ r'.lastUpdateSlot.toNat
  rate_le : r.liquidity.cumulativeBorrowRateSf.toNat ≤ r'.liquidity.cumulativeBorrowRateSf.toNat

theorem accrues_of_ok (h : r.accrueInterest s = .ok r') : Accrues s r r' := by
  rcases accrueInterest_ok h with ⟨hs, rfl⟩ | ⟨-, bps, -, ⟨-, rfl⟩ | ⟨-, l', hl, rfl⟩⟩
  · exact ⟨rfl, rfl, rfl, rfl, rfl, hs, le_refl _⟩
  · exact ⟨rfl, rfl, rfl, rfl, rfl, le_refl _, le_refl _⟩
  · obtain ⟨-, -, -, d, i, f, -, hi, -, rfl⟩ := ReserveLiquidity.accuredInterest_ok hl
    exact ⟨rfl, rfl, rfl, rfl, rfl, le_refl _, by simp only; omega⟩

/-- Moving liquidity between the vault and borrowers changes none of the reserve's terms. -/
structure KeepsTerms (r r' : Reserve) : Prop where
  config : r'.config = r.config
  collateral : r'.collateral = r.collateral
  lendingMarket : r'.lendingMarket = r.lendingMarket
  lastUpdateSlot : r'.lastUpdateSlot = r.lastUpdateSlot
  totalSupply : r'.liquidity.totalSupply = r.liquidity.totalSupply
  price : r'.liquidity.marketPriceSf = r.liquidity.marketPriceSf
  rate : r'.liquidity.cumulativeBorrowRateSf = r.liquidity.cumulativeBorrowRateSf

theorem keepsTerms_of_borrow (h : r.borrow a = .ok r') : KeepsTerms r r' := by
  obtain ⟨-, l', hl, rfl⟩ := borrow_ok.mp h
  obtain ⟨v, d, hv, hd, rfl⟩ := ReserveLiquidity.borrow_ok.mp hl
  exact ⟨rfl, rfl, rfl, rfl, ReserveLiquidity.totalSupply_congr (by simp only; omega) rfl, rfl, rfl⟩

theorem keepsTerms_of_repay (h : r.repay a = .ok r') : KeepsTerms r r' := by
  obtain ⟨l', hl, rfl⟩ := repay_ok.mp h
  obtain ⟨v, d, hv, hd, rfl⟩ := ReserveLiquidity.repay_ok.mp hl
  exact ⟨rfl, rfl, rfl, rfl, ReserveLiquidity.totalSupply_congr (by simp only; omega) rfl, rfl, rfl⟩

end Reserve

end VeilVault
