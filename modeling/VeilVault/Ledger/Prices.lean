/-
# VeilVault.Ledger.Prices — from a price message to a scaled price.

A message says `price * 10 ^ exponent`, and `get_pyth_price` returns it in units of `1 / rateScale`.
Its checks look at the message; nothing looks at the power of ten or at the quotient.  From
`10 ^ 39` on the power panics instead of being refused, and a small price with a long exponent is
rounded down to a price of zero, which the reserve accepts.
-/
import Mathlib.Algebra.Order.Field.Rat
import Mathlib.Data.Rat.Floor
import VeilVault.Ledger.Refresh

namespace VeilVault

open Kit

/-! ## Decimals -/

/-- `m * 10 ^ e` in units of `1 / scale`, rounded down. -/
def decimalFloor (m : ℕ) (e : ℤ) (scale : ℕ) : ℕ :=
  if e < 0 then m * scale / 10 ^ e.natAbs else m * scale * 10 ^ e.natAbs

theorem decimalFloor_of_neg {m scale : ℕ} {e : ℤ} (he : e < 0) :
    decimalFloor m e scale = m * scale / 10 ^ e.natAbs := if_pos he

theorem decimalFloor_of_nonneg {m scale : ℕ} {e : ℤ} (he : 0 ≤ e) :
    decimalFloor m e scale = m * scale * 10 ^ e.natAbs := if_neg (Int.not_lt.mpr he)

theorem decimalFloor_eq_floor (m : ℕ) (e : ℤ) (scale : ℕ) :
    (decimalFloor m e scale : ℤ) = ⌊(m : ℚ) * 10 ^ e * scale⌋ := by
  rcases Int.lt_or_le e 0 with he | he
  · have hpow : (10 : ℚ) ^ e = ((10 ^ e.natAbs : ℕ) : ℚ)⁻¹ := by
      rw [Nat.cast_pow, Nat.cast_ofNat, ← zpow_natCast, ← zpow_neg]
      congr 1
      omega
    have hquot : (m : ℚ) * 10 ^ e * scale = ((m * scale : ℕ) : ℚ) / ((10 ^ e.natAbs : ℕ) : ℚ) := by
      rw [hpow, Nat.cast_mul, div_eq_mul_inv, mul_right_comm]
    rw [decimalFloor_of_neg he, hquot, Rat.floor_natCast_div_natCast]
    rfl
  · obtain ⟨n, rfl⟩ := Int.eq_ofNat_of_zero_le he
    have hwhole : (m : ℚ) * 10 ^ (n : ℤ) * scale = ((m * scale * 10 ^ n : ℕ) : ℚ) := by
      rw [zpow_natCast, Nat.cast_mul, Nat.cast_mul, Nat.cast_pow, Nat.cast_ofNat, mul_right_comm]
    rw [decimalFloor_of_nonneg he, hwhole, Int.floor_natCast]
    rfl

/-- Only a negative exponent can round a positive decimal down to nothing. -/
theorem decimalFloor_pos_iff {m scale : ℕ} {e : ℤ} (hm : 0 < m) (hscale : 0 < scale) :
    0 < decimalFloor m e scale ↔ (e < 0 → 10 ^ e.natAbs ≤ m * scale) := by
  have hpow : 0 < 10 ^ e.natAbs := Nat.pow_pos (by decide)
  rcases Int.lt_or_le e 0 with he | he
  · rw [decimalFloor_of_neg he, Nat.div_pos_iff]
    exact ⟨fun h _ => h.2, fun h => ⟨hpow, h he⟩⟩
  · rw [decimalFloor_of_nonneg he]
    exact iff_of_true (Nat.mul_pos (Nat.mul_pos hm hscale) hpow)
      fun hneg => absurd hneg (Int.not_lt.mpr he)

/-! ## The checks -/

/-- The time since `y`, held between the ends of an `i64`. -/
theorem toInt_saturatingSubI64 (x y : Int64) : (saturatingSubI64 x y).toInt =
    max Int64.minValue.toInt (min Int64.maxValue.toInt (x.toInt - y.toInt)) := by
  have hmin : Int64.minValue.toInt = -2 ^ 63 := rfl
  have hmax : Int64.maxValue.toInt = 2 ^ 63 - 1 := rfl
  rw [saturatingSubI64, Int64.toInt_ofInt_of_le] <;> omega

namespace PriceUpdate

variable {u : PriceUpdate} {maxAgeSecs now : Int64}

/-- The message passes every check on what it says. -/
structure Accepted (u : PriceUpdate) (maxAgeSecs now : Int64) : Prop where
  verified : u.fullyVerified = true
  recent : saturatingSubI64 now u.publishTime ≤ maxAgeSecs
  positive : u.price > 0
  narrow : saturatingMul u.conf confidenceFactor ≤ u.price.toBitVec

theorem Accepted.toInt_pos (h : u.Accepted maxAgeSecs now) : 0 < u.price.toInt :=
  Int64.lt_iff_toInt_lt.mp h.positive

/-- A positive `i64` is the same number as a `u64`. -/
theorem Accepted.toNat_price (h : u.Accepted maxAgeSecs now) :
    (u.price.toBitVec.toNat : ℤ) = u.price.toInt := by
  have hpos := h.toInt_pos
  have htwo := BitVec.toInt_eq_toNat_cond u.price.toBitVec
  have hword := u.price.toBitVec.isLt
  rw [Int64.toInt_toBitVec] at htwo
  split at htwo <;> omega

/-- The product saturates only above every price. -/
theorem Accepted.conf_le (h : u.Accepted maxAgeSecs now) :
    (u.conf.toNat : ℤ) * 50 ≤ u.price.toInt := by
  have hle := BitVec.le_def.mp h.narrow
  have hprice := h.toNat_price
  have hbound := u.price.toInt_lt
  have hfactor : confidenceFactor.toNat = 50 := rfl
  rw [toNat_saturatingMul, hfactor] at hle
  omega

/-- The age is exact but for a limit that the saturated difference cannot exceed. -/
theorem Accepted.age_le_iff (h : u.Accepted maxAgeSecs now) :
    now.toInt - u.publishTime.toInt ≤ maxAgeSecs.toInt ↔
      (maxAgeSecs = Int64.maxValue → now.toInt - u.publishTime.toInt ≤ Int64.maxValue.toInt) := by
  have hle := Int64.le_iff_toInt_le.mp h.recent
  rw [toInt_saturatingSubI64] at hle
  constructor
  · rintro hage rfl
    exact hage
  · intro hcorner
    by_cases hmax : maxAgeSecs = Int64.maxValue
    · rw [hmax]
      exact hcorner hmax
    · have hne : maxAgeSecs.toInt ≠ Int64.maxValue.toInt := fun hsame =>
        hmax (Int64.toInt_inj.mp hsame)
      have hbound := maxAgeSecs.toInt_le
      have hlow := maxAgeSecs.minValue_le_toInt
      omega

/-! ## The conversion -/

theorem pow10_of_le {n : ℕ} (h : n ≤ 38) : ∃ f, pow10 n = some f ∧ f.toNat = 10 ^ n := by
  have hfit : 10 ^ n < 2 ^ 128 :=
    (Nat.pow_le_pow_right (by decide) h).trans_lt (by decide)
  exact ⟨BitVec.ofNatLT (10 ^ n) hfit, dif_pos hfit, BitVec.toNat_ofNatLT _ hfit⟩

theorem pow10_of_lt {n : ℕ} (h : 38 < n) : pow10 n = none := by
  have hover : ¬ 10 ^ n < 2 ^ 128 := Nat.not_lt.mpr
    (Nat.le_trans (show 2 ^ 128 ≤ 10 ^ 39 by decide) (Nat.pow_le_pow_right (by decide) h))
  exact dif_neg hover

/-- A message that fails a check is refused with an error. -/
theorem getPythPrice_of_not_accepted (h : ¬ u.Accepted maxAgeSecs now) :
    ∃ e, getPythPrice (some u) maxAgeSecs now = .error (.lending e) := by
  simp only [getPythPrice, okOr_some, ok_bind]
  by_cases hverified : u.fullyVerified = true
  swap
  · exact ⟨.priceNotValid, by rw [require_neg hverified]; rfl⟩
  by_cases hrecent : saturatingSubI64 now u.publishTime ≤ maxAgeSecs
  swap
  · exact ⟨.priceStale, by rw [require_pos hverified, require_neg hrecent]; rfl⟩
  by_cases hpositive : u.price > 0
  swap
  · exact ⟨.priceNotValid, by
      rw [require_pos hverified, require_pos hrecent, require_neg hpositive]; rfl⟩
  by_cases hnarrow : saturatingMul u.conf confidenceFactor ≤ u.price.toBitVec
  · exact absurd ⟨hverified, hrecent, hpositive, hnarrow⟩ h
  · exact ⟨.priceConfidenceTooWide, by
      rw [require_pos hverified, require_pos hrecent, require_pos hpositive, require_neg hnarrow]
      rfl⟩

/-- The price in units of `1 / rateScale`. -/
def scaled (u : PriceUpdate) : ℕ :=
  decimalFloor u.price.toInt.toNat u.exponent.toInt (10 ^ 12)

/-- After the checks, the power of ten panics or the result is the exact one, if it fits. -/
theorem getPythPrice_of_accepted (h : u.Accepted maxAgeSecs now) :
    (38 < u.exponent.toInt.natAbs ∧ getPythPrice (some u) maxAgeSecs now = .error .abort) ∨
    (u.exponent.toInt.natAbs ≤ 38 ∧ 2 ^ 128 ≤ u.scaled ∧
      getPythPrice (some u) maxAgeSecs now = .error (.lending .mathOverflow)) ∨
    (u.exponent.toInt.natAbs ≤ 38 ∧ ∃ p, p.toNat = u.scaled ∧
      getPythPrice (some u) maxAgeSecs now = .ok (p, u.publishTime)) := by
  have hprice : u.price.toBitVec.toNat = u.price.toInt.toNat := by
    have := h.toNat_price
    omega
  have hbound := u.price.toInt_lt
  obtain ⟨m, hm, hmval⟩ := exists_checkedMul (x := U64.toU128 u.price.toBitVec) (y := rateScale)
    (by rw [toNat_toU128, toNat_rateScale]; omega)
  rw [toNat_toU128, hprice, toNat_rateScale] at hmval
  simp only [getPythPrice, okOr_some, ok_bind, require_pos h.verified, require_pos h.recent,
    require_pos h.positive, require_pos h.narrow, hm]
  rcases Nat.lt_or_ge 38 u.exponent.toInt.natAbs with hlarge | hsmall
  · -- `10u128.pow` is the one step that is not checked
    refine .inl ⟨hlarge, ?_⟩
    rw [pow10_of_lt hlarge]
    rfl
  · obtain ⟨f, hf, hfval⟩ := pow10_of_le hsmall
    rw [hf]
    have hpow : f.toNat ≠ 0 := by
      rw [hfval]
      exact (Nat.pow_pos (by decide)).ne'
    by_cases hneg : u.exponent < 0
    · have he : u.exponent.toInt < 0 := Int32.lt_iff_toInt_lt.mp hneg
      obtain ⟨q, hq, hqval⟩ := exists_checkedDiv (x := m) (y := f) hpow
      -- a quotient always fits
      refine .inr (.inr ⟨hsmall, q, ?_, ?_⟩)
      · rw [hqval, hmval, hfval, scaled, decimalFloor_of_neg he]
      · simp only [orAbort, orFail_some, ok_bind, if_pos hneg, hq, okOr_some]
        rfl
    · have he : 0 ≤ u.exponent.toInt := Int.not_lt.mp fun hlt =>
        hneg (Int32.lt_iff_toInt_lt.mpr hlt)
      have hprod : m.toNat * f.toNat = u.scaled := by
        rw [hmval, hfval, scaled, decimalFloor_of_nonneg he]
      simp only [orAbort, orFail_some, ok_bind, if_neg hneg]
      rcases Nat.lt_or_ge u.scaled (2 ^ 128) with hfit | hover
      · obtain ⟨p, hp, hpval⟩ := exists_checkedMul (x := m) (y := f) (hprod ▸ hfit)
        refine .inr (.inr ⟨hsmall, p, hpval.trans hprod, ?_⟩)
        rw [hp]
        rfl
      · refine .inr (.inl ⟨hsmall, hover, ?_⟩)
        rw [checkedMul_eq_none.mpr (hprod ▸ hover)]
        rfl

/-- Either an error is returned, or the exact price of a message that is positive, narrow and
recent. -/
def ConvertsExactly (u : PriceUpdate) (maxAgeSecs now : Int64) : Prop :=
  (∃ e, getPythPrice (some u) maxAgeSecs now = .error (.lending e)) ∨
  ∃ p t, getPythPrice (some u) maxAgeSecs now = .ok (p, t) ∧
    (p.toNat : ℤ) = ⌊(u.price.toInt : ℚ) * 10 ^ u.exponent.toInt * 10 ^ 12⌋ ∧ 0 < p.toNat ∧
    0 < u.price.toInt ∧ (u.conf.toNat : ℤ) * 50 ≤ u.price.toInt ∧
    now.toInt - u.publishTime.toInt ≤ maxAgeSecs.toInt

theorem Accepted.scaled_eq_floor (h : u.Accepted maxAgeSecs now) :
    (u.scaled : ℤ) = ⌊(u.price.toInt : ℚ) * 10 ^ u.exponent.toInt * 10 ^ 12⌋ := by
  have hprice : ((u.price.toInt.toNat : ℕ) : ℚ) = (u.price.toInt : ℚ) := by
    exact_mod_cast Int.toNat_of_nonneg h.toInt_pos.le
  rw [scaled, decimalFloor_eq_floor, hprice, Nat.cast_pow, Nat.cast_ofNat]

theorem Accepted.scaled_pos_iff (h : u.Accepted maxAgeSecs now) :
    0 < u.scaled ↔ (u.exponent.toInt < 0 →
      10 ^ u.exponent.toInt.natAbs ≤ u.price.toInt.toNat * 10 ^ 12) :=
  decimalFloor_pos_iff (Int.lt_toNat.mpr h.toInt_pos) (by decide)

/-- Only a product can outgrow its word. -/
theorem le_scaled_iff : 2 ^ 128 ≤ u.scaled ↔ 0 ≤ u.exponent.toInt ∧
    2 ^ 128 ≤ u.price.toInt.toNat * 10 ^ 12 * 10 ^ u.exponent.toInt.natAbs := by
  rcases Int.lt_or_le u.exponent.toInt 0 with he | he
  · have hbound := u.price.toInt_lt
    have hquot : u.scaled ≤ u.price.toInt.toNat * 10 ^ 12 := by
      rw [scaled, decimalFloor_of_neg he]
      exact Nat.div_le_self _ _
    omega
  · rw [scaled, decimalFloor_of_nonneg he]
    exact ⟨fun h => ⟨he, h⟩, And.right⟩

/-- The conversion is exact when a check refuses the message, or when its power of ten exists and
the scaled price either does not fit its word or is not rounded down to nothing.  The last clause
is the one age limit that a saturated difference never exceeds. -/
theorem convertsExactly_iff (u : PriceUpdate) (maxAgeSecs now : Int64) :
    u.ConvertsExactly maxAgeSecs now ↔
      (¬ u.Accepted maxAgeSecs now ∨
        (u.exponent.toInt.natAbs ≤ 38 ∧
          ((0 ≤ u.exponent.toInt ∧
              2 ^ 128 ≤ u.price.toInt.toNat * 10 ^ 12 * 10 ^ u.exponent.toInt.natAbs) ∨
            ((u.exponent.toInt < 0 →
                10 ^ u.exponent.toInt.natAbs ≤ u.price.toInt.toNat * 10 ^ 12) ∧
              (maxAgeSecs = Int64.maxValue →
                now.toInt - u.publishTime.toInt ≤ Int64.maxValue.toInt))))) := by
  by_cases h : u.Accepted maxAgeSecs now
  swap
  · exact iff_of_true (.inl (getPythPrice_of_not_accepted h)) (.inl h)
  rw [← le_scaled_iff, ← h.scaled_pos_iff, ← h.age_le_iff, ConvertsExactly]
  rcases getPythPrice_of_accepted h with ⟨hlarge, hrun⟩ | ⟨hsmall, hover, hrun⟩ |
    ⟨hsmall, p, hp, hrun⟩
  · -- the panic is not an error of the program
    rw [hrun]
    refine iff_of_false ?_ ?_
    · rintro (⟨e, he⟩ | ⟨p, t, hp, -⟩)
      · cases he
      · cases hp
    · rintro (hnot | ⟨hsmall, -⟩)
      · exact hnot h
      · omega
  · exact iff_of_true (.inl ⟨_, hrun⟩) (.inr ⟨hsmall, .inl hover⟩)
  · rw [hrun]
    constructor
    · rintro (⟨e, he⟩ | ⟨q, t, hq, -, hpos, -, -, hage⟩)
      · cases he
      · cases hq
        exact .inr ⟨hsmall, .inr ⟨hp ▸ hpos, hage⟩⟩
    · rintro (hnot | ⟨-, hover | ⟨hpos, hage⟩⟩)
      · exact absurd h hnot
      · have hword := p.isLt
        omega
      · exact .inr ⟨p, u.publishTime, rfl, hp ▸ h.scaled_eq_floor, hp ▸ hpos, h.toInt_pos,
          h.conf_le, hage⟩

/-- A price of `10 ^ -13`, as fresh and as narrow as can be. -/
def crumb : PriceUpdate :=
  { fullyVerified := true, price := 1, conf := 0, exponent := -13, publishTime := 0 }

/-- It is returned as a price of zero, and with an exponent of -39 it takes the program down. -/
theorem not_convertsExactly_crumb :
    ¬ crumb.ConvertsExactly maxAgeSeconds 0 ∧
      ¬ { crumb with exponent := -39 }.ConvertsExactly maxAgeSeconds 0 := by
  have hzero : getPythPrice (some crumb) maxAgeSeconds 0 = .ok (0, 0) := by decide
  have habort : getPythPrice (some { crumb with exponent := -39 }) maxAgeSeconds 0 =
    .error .abort := by decide
  constructor
  · rintro (⟨e, he⟩ | ⟨p, t, hp, -, hpos, -⟩)
    · rw [hzero] at he
      cases he
    · rw [hzero] at hp
      cases hp
      exact absurd hpos (by decide)
  · rintro (⟨e, he⟩ | ⟨p, t, hp, -⟩)
    · rw [habort] at he
      cases he
    · rw [habort] at hp
      cases hp

end PriceUpdate

end VeilVault
