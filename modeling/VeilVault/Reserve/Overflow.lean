/-
# VeilVault.Reserve.Overflow — when an accrual fails.

`accured_interest` computes everything in `u128` with checked operations.  `AccrualFits` lists the
numbers it computes; an accrual succeeds exactly when all of them fit (`accuredInterest_iff`).
Every one of them grows with the number of slots elapsed, so an accrual that fails fails at every
later slot too (`accrueInterest_mono`): waiting does not help.
-/
import VeilVault.Reserve.Methods

namespace VeilVault

open Kit

namespace ReserveLiquidity

variable {l l' : ReserveLiquidity}

/-- Everything an accrual of `bps` a year over `n` slots computes fits its word. -/
structure AccrualFits (l : ReserveLiquidity) (bps n fee : ℕ) : Prop where
  growth : bps * n * 10 ^ 12 < 2 ^ 128
  interest : periodRate bps n * l.borrowedAmountSf.toNat < 2 ^ 128
  debt : l.borrowedAmountSf.toNat + periodRate bps n * l.borrowedAmountSf.toNat / 10 ^ 12 < 2 ^ 128
  cut : periodRate bps n * l.borrowedAmountSf.toNat / 10 ^ 12 * fee < 2 ^ 128
  fees : l.accumulatedProtocolFees.toNat +
    periodRate bps n * l.borrowedAmountSf.toNat / 10 ^ 12 * fee / 10000 < 2 ^ 128
  raise : periodRate bps n * l.cumulativeBorrowRateSf.toNat < 2 ^ 128
  index : l.cumulativeBorrowRateSf.toNat +
    periodRate bps n * l.cumulativeBorrowRateSf.toNat / 10 ^ 12 < 2 ^ 128

theorem periodRate_mono (bps : ℕ) {n n' : ℕ} (h : n ≤ n') : periodRate bps n ≤ periodRate bps n' :=
  Nat.div_le_div_right (Nat.div_le_div_right (Nat.mul_le_mul_right _ (Nat.mul_le_mul_left _ h)))

/-- What fits over more slots fits over fewer. -/
theorem AccrualFits.mono {bps n n' fee : ℕ} (h : l.AccrualFits bps n' fee) (hle : n ≤ n') :
    l.AccrualFits bps n fee := by
  have hrate := periodRate_mono bps hle
  have hdebt : periodRate bps n * l.borrowedAmountSf.toNat ≤
      periodRate bps n' * l.borrowedAmountSf.toNat := Nat.mul_le_mul_right _ hrate
  have hinterest := Nat.div_le_div_right (c := 10 ^ 12) hdebt
  have hraise : periodRate bps n * l.cumulativeBorrowRateSf.toNat ≤
      periodRate bps n' * l.cumulativeBorrowRateSf.toNat := Nat.mul_le_mul_right _ hrate
  have hfee := Nat.mul_le_mul_right fee hinterest
  have hgrowth := Nat.mul_le_mul_right (10 ^ 12) (Nat.mul_le_mul_left bps hle)
  exact {
    growth := Nat.lt_of_le_of_lt hgrowth h.growth
    interest := Nat.lt_of_le_of_lt hdebt h.interest
    debt := Nat.lt_of_le_of_lt (Nat.add_le_add_left hinterest _) h.debt
    cut := Nat.lt_of_le_of_lt hfee h.cut
    fees := Nat.lt_of_le_of_lt (Nat.add_le_add_left (Nat.div_le_div_right hfee) _) h.fees
    raise := Nat.lt_of_le_of_lt hraise h.raise
    index := Nat.lt_of_le_of_lt (Nat.add_le_add_left (Nat.div_le_div_right hraise) _) h.index }

/-- An accrual succeeds exactly when there is something to accrue and everything fits. -/
theorem accuredInterest_iff {bps n fee : U64} : (∃ l', l.accuredInterest bps n fee = .ok l') ↔
    0 < n.toNat ∧ 0 < bps.toNat ∧ l.AccrualFits bps.toNat n.toNat fee.toNat := by
  have hword {m : ℕ} (h : m < 2 ^ 128) : ∃ x : U128, x.toNat = m :=
    ⟨BitVec.ofNatLT m h, BitVec.toNat_ofNatLT m h⟩
  simp only [accuredInterest, bind_eq_ok, require_eq_ok, okOr_eq_ok, Option.bind_eq_bind,
    Option.bind_eq_some_iff, checkedMul_eq_some, checkedDiv_eq_some, checkedAdd_eq_some,
    pure_eq_ok, exists_const, toNat_toU128, toNat_rateScale, toNat_slotsPerYear, toNat_bpsScaler,
    gt_iff_lt, BitVec.lt_def]
  constructor
  · rintro ⟨l', hn, hbps, rate, ⟨m₁, hm₁, m₂, hm₂, m₃, ⟨-, hm₃⟩, -, hrate⟩,
      debt, ⟨m₄, hm₄, -, hdebt⟩, d, hd, cut, ⟨m₅, hm₅, -, hcut⟩, f, hf, acc, ⟨m₆, hm₆, -, hacc⟩, i,
      hi, rfl⟩
    have hr : rate.toNat = periodRate bps.toNat n.toNat := by
      rw [hrate, hm₃, hm₂, hm₁, periodRate]
    rw [hr] at hm₄ hm₆
    rw [hm₄] at hdebt
    rw [hm₆] at hacc
    rw [hdebt] at hd hm₅
    rw [hcut, hm₅] at hf
    rw [hacc] at hi
    refine ⟨hn, hbps, ?_⟩
    exact {
      growth := by rw [← hm₁, ← hm₂]; exact m₂.isLt
      interest := hm₄ ▸ m₄.isLt
      debt := hd ▸ d.isLt
      cut := hm₅ ▸ m₅.isLt
      fees := hf ▸ f.isLt
      raise := hm₆ ▸ m₆.isLt
      index := hi ▸ i.isLt }
  · rintro ⟨hn, hbps, hfits⟩
    -- a quotient of what fits, and a factor of it, fit as well
    have hquot {m : ℕ} (h : m < 2 ^ 128) (c : ℕ) : m / c < 2 ^ 128 :=
      Nat.lt_of_le_of_lt (Nat.div_le_self m c) h
    have hprod : bps.toNat * n.toNat < 2 ^ 128 := by
      have hgrowth := hfits.growth
      omega
    obtain ⟨m₁, hm₁⟩ := hword hprod
    obtain ⟨m₂, hm₂⟩ := hword hfits.growth
    obtain ⟨m₃, hm₃⟩ := hword (hquot hfits.growth 63072000)
    obtain ⟨rate, hr⟩ : ∃ rate : U128, rate.toNat = periodRate bps.toNat n.toNat :=
      hword (hquot (hquot hfits.growth 63072000) 10000)
    obtain ⟨m₄, hm₄⟩ := hword hfits.interest
    obtain ⟨debt, hdebt⟩ := hword (hquot hfits.interest (10 ^ 12))
    obtain ⟨d, hd⟩ := hword hfits.debt
    obtain ⟨m₅, hm₅⟩ := hword hfits.cut
    obtain ⟨cut, hcut⟩ := hword (hquot hfits.cut 10000)
    obtain ⟨f, hf⟩ := hword hfits.fees
    obtain ⟨m₆, hm₆⟩ := hword hfits.raise
    obtain ⟨acc, hacc⟩ := hword (hquot hfits.raise (10 ^ 12))
    obtain ⟨i, hi⟩ := hword hfits.index
    refine ⟨_, hn, hbps, rate, ⟨m₁, hm₁, m₂, ?_, m₃, ⟨by decide, ?_⟩, by decide, ?_⟩,
      debt, ⟨m₄, ?_, by decide, ?_⟩, d, ?_, cut, ⟨m₅, ?_, by decide, ?_⟩, f, ?_,
      acc, ⟨m₆, ?_, by decide, ?_⟩, i, ?_, rfl⟩
    · rw [hm₂, hm₁]
    · rw [hm₃, hm₂]
    · rw [hr, hm₃, periodRate]
    · rw [hm₄, hr]
    · rw [hdebt, hm₄]
    · rw [hd, hdebt]
    · rw [hm₅, hdebt]
    · rw [hcut, hm₅]
    · rw [hf, hcut]
    · rw [hm₆, hr]
    · rw [hacc, hm₆]
    · rw [hi, hacc]

end ReserveLiquidity

namespace Reserve

variable {r : Reserve} {s s' : U64}

/-- An accrual that succeeds would have succeeded at every earlier slot. -/
theorem accrueInterest_mono (hle : s.toNat ≤ s'.toNat) (h : ∃ r', r.accrueInterest s' = .ok r') :
    ∃ r', r.accrueInterest s = .ok r' := by
  obtain ⟨r', hr'⟩ := h
  by_cases hs : s.toNat ≤ r.lastUpdateSlot.toNat
  · exact ⟨r, accrueInterest_current hs⟩
  · have hsub := toNat_saturatingSub s r.lastUpdateSlot
    have hsub' := toNat_saturatingSub s' r.lastUpdateSlot
    have hpos : 0 < (saturatingSub s r.lastUpdateSlot).toNat := by omega
    have hmove : saturatingSub s r.lastUpdateSlot ≠ 0 := ne_zero_iff_toNat_pos.mp hpos
    rcases accrueInterest_ok hr' with ⟨hs', -⟩ | ⟨-, bps, hbps, ⟨hzero, -⟩ | ⟨hbpos, l', hl', -⟩⟩
    · omega
    · have hnone : ¬ bps > 0 := fun hp => absurd (BitVec.lt_def.mp hp) (by rw [hzero]; decide)
      refine ⟨{ r with lastUpdateSlot := s }, ?_⟩
      simp only [accrueInterest, if_neg hmove, hbps, ok_bind, if_neg hnone, pure_bind]
      rfl
    · obtain ⟨-, hb, hfits⟩ := ReserveLiquidity.accuredInterest_iff.mp ⟨l', hl'⟩
      obtain ⟨l'', hl''⟩ := ReserveLiquidity.accuredInterest_iff.mpr
        ⟨hpos, hb, hfits.mono (by omega)⟩
      refine ⟨{ r with liquidity := l'', lastUpdateSlot := s }, ?_⟩
      have hp : bps > 0 := BitVec.lt_def.mpr hbpos
      simp only [accrueInterest, if_neg hmove, hbps, ok_bind, if_pos hp, hl'']
      rfl

end Reserve

end VeilVault
