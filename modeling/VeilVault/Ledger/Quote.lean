/-
# VeilVault.Ledger.Quote — what a reserve says about value.

Valuation reads five numbers of a reserve.  `depositValue` is `refresh_obligation`'s formula with
its two floors; `Backs` is the same comparison before rounding, which is what proportional scaling
and top-ups preserve.  `Backs.le` is the price of the floors: one underlying unit.
-/
import Mathlib.Tactic.GCongr
import Mathlib.Tactic.Ring
import VeilVault.Reserve.Methods

namespace VeilVault

/-- What valuation reads of a reserve. -/
structure Quote where
  price : ℕ
  total : ℕ
  supply : ℕ
  thresholdPct : ℕ
  rate : U128
  deriving DecidableEq

def Reserve.quote (r : Reserve) : Quote where
  price := r.liquidity.marketPriceSf.toNat
  total := r.liquidity.totalSupplyOrZero.toNat
  supply := r.collateral.mintTotalSupply.toNat
  thresholdPct := r.config.liquidationThresholdPct.toNat
  rate := r.liquidity.cumulativeBorrowRateSf

theorem Reserve.KeepsTerms.quote {r r' : Reserve} (h : r.KeepsTerms r') : r'.quote = r.quote := by
  simp only [Reserve.quote, ReserveLiquidity.totalSupplyOrZero, h.config, h.collateral,
    h.totalSupply, h.price, h.rate]

namespace Quote

/-- The whole underlying units that an amount of cTokens stands for. -/
def underlying (q : Quote) (ctokens : ℕ) : ℕ :=
  if q.supply = 0 then 0 else ctokens * q.total / q.supply

/-- `refresh_obligation`'s value of an amount of cTokens. -/
def depositValue (q : Quote) (ctokens : ℕ) : ℕ :=
  (if q.supply = 0 then 0 else ctokens * q.total / q.supply) * q.price * q.thresholdPct / 100

theorem depositValue_mono (q : Quote) {ctokens ctokens' : ℕ} (h : ctokens ≤ ctokens') :
    q.depositValue ctokens ≤ q.depositValue ctokens' := by
  unfold depositValue
  split
  · exact le_refl _
  · gcongr

/-- The threshold-adjusted value of one underlying atomic unit, rounded up. -/
def unitValue (q : Quote) : ℕ := (q.price * q.thresholdPct + 99) / 100

/-- The value of a debt in units of `1 / rateScale`. -/
def debtValue (q : Quote) (amountSf : ℕ) : ℕ := amountSf / 10 ^ 12 * q.price

theorem debtValue_add (q : Quote) (x n : ℕ) :
    q.debtValue (x + n * 10 ^ 12) = q.debtValue x + n * q.price := by
  rw [debtValue, debtValue, Nat.add_mul_div_right _ _ (by decide), Nat.add_mul]

/-- A cached value that `amount` cTokens are really worth, before rounding. -/
def Backs (q : Quote) (amount value : ℕ) : Prop :=
  0 < q.supply ∧ value * (100 * q.supply) ≤ amount * q.total * q.price * q.thresholdPct

/-- Rounding loses less than one underlying unit. -/
theorem Backs.le {q : Quote} {amount value : ℕ} (h : q.Backs amount value) :
    value ≤ q.depositValue amount + q.unitValue := by
  obtain ⟨hpos, hle⟩ := h
  have hfloor : amount * q.total ≤ (amount * q.total / q.supply + 1) * q.supply :=
    (Nat.lt_div_mul_add hpos).le.trans_eq (by ring)
  have hscaled : value * 100 ≤ (amount * q.total / q.supply + 1) * (q.price * q.thresholdPct) := by
    refine Nat.le_of_mul_le_mul_right ?_ hpos
    calc value * 100 * q.supply
        = value * (100 * q.supply) := by ring
      _ ≤ amount * q.total * q.price * q.thresholdPct := hle
      _ = amount * q.total * (q.price * q.thresholdPct) := by ring
      _ ≤ (amount * q.total / q.supply + 1) * q.supply * (q.price * q.thresholdPct) :=
          Nat.mul_le_mul_right _ hfloor
      _ = (amount * q.total / q.supply + 1) * (q.price * q.thresholdPct) * q.supply := by ring
  rw [depositValue, if_neg hpos.ne', unitValue, Nat.mul_assoc]
  rw [Nat.add_mul, Nat.one_mul] at hscaled
  omega

/-- A cached value scaled down with its amount is still backed. -/
theorem Backs.scale {q : Quote} {amount value left : ℕ} (h : q.Backs amount value)
    (hpos : 0 < amount) : q.Backs left (value * left / amount) := by
  refine ⟨h.1, Nat.le_of_mul_le_mul_right ?_ hpos⟩
  calc value * left / amount * (100 * q.supply) * amount
      = value * left / amount * amount * (100 * q.supply) := by ring
    _ ≤ value * left * (100 * q.supply) := Nat.mul_le_mul_right _ (Nat.div_mul_le_self _ _)
    _ = value * (100 * q.supply) * left := by ring
    _ ≤ amount * q.total * q.price * q.thresholdPct * left := Nat.mul_le_mul_right _ h.2
    _ = left * q.total * q.price * q.thresholdPct * amount := by ring

/-- More cTokens back the same value. -/
theorem Backs.mono {q : Quote} {amount amount' value : ℕ} (h : q.Backs amount value)
    (hle : amount ≤ amount') : q.Backs amount' value := by
  refine ⟨h.1, h.2.trans ?_⟩
  gcongr

end Quote

end VeilVault
