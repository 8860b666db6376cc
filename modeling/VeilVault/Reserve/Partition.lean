/-
# VeilVault.Reserve.Partition — one interval, accrued in steps.

`refresh_reserve` lets anyone choose when a reserve accrues.  Every accrual rounds its rate down to
`1 / RATE_SCALE` and its interest down to whole atomic units, so a partition of an interval loses at
every step what `Kit.dropped` adds up, and gains the interest on interest.  A debt too small to earn
a unit between two refreshes earns nothing, however long that goes on.
-/
import VeilVault.Kit.Compounding
import VeilVault.Reserve.Methods

namespace VeilVault

open Kit

namespace ReserveLiquidity

variable {l l' many once : ReserveLiquidity} {bps fee total : U64} {steps : List U64}

/-- The same rate and fee over each step of a list in turn. -/
def accuredThrough (l : ReserveLiquidity) (borrowRate protocolFee : U64) (steps : List U64) :
    Result ReserveLiquidity :=
  steps.foldlM (fun l n => l.accuredInterest borrowRate n protocolFee) l

/-- The rates of the steps, times `rateScale`. -/
def stepRates (borrowRate : U64) (steps : List U64) : List ℕ :=
  steps.map fun n => periodRate borrowRate.toNat n.toNat

/-- The rates of the parts, rounded down, add up to at most the rate of the whole. -/
theorem periodRate_add_le (bps m n : ℕ) :
    periodRate bps m + periodRate bps n ≤ periodRate bps (m + n) := by
  have hsum : bps * (m + n) * 10 ^ 12 = bps * m * 10 ^ 12 + bps * n * 10 ^ 12 := by ring
  unfold periodRate
  rw [hsum]
  calc bps * m * 10 ^ 12 / 63072000 / 10000 + bps * n * 10 ^ 12 / 63072000 / 10000
      ≤ (bps * m * 10 ^ 12 / 63072000 + bps * n * 10 ^ 12 / 63072000) / 10000 :=
        Nat.div_add_div_le_add_div
    _ ≤ (bps * m * 10 ^ 12 + bps * n * 10 ^ 12) / 63072000 / 10000 :=
        Nat.div_le_div_right Nat.div_add_div_le_add_div

theorem stepRates_sum_le (bps : U64) (steps : List U64) :
    (stepRates bps steps).sum ≤ periodRate bps.toNat (steps.map (·.toNat)).sum := by
  induction steps with
  | nil => exact Nat.zero_le _
  | cons n ns ih =>
      calc (stepRates bps (n :: ns)).sum
          = periodRate bps.toNat n.toNat + (stepRates bps ns).sum := rfl
        _ ≤ periodRate bps.toNat n.toNat + periodRate bps.toNat (ns.map (·.toNat)).sum :=
            Nat.add_le_add_left ih _
        _ ≤ periodRate bps.toNat (n.toNat + (ns.map (·.toNat)).sum) := periodRate_add_le _ _ _

/-- Stepwise accrual compounds the debt. -/
theorem accuredThrough_debt (h : l.accuredThrough bps fee steps = .ok many) :
    many.borrowedAmountSf.toNat =
      compounded (10 ^ 12) l.borrowedAmountSf.toNat (stepRates bps steps) := by
  induction steps generalizing l with
  | nil =>
      cases h
      rfl
  | cons n ns ih =>
      unfold accuredThrough at h
      rw [List.foldlM_cons] at h
      obtain ⟨l₁, hl₁, hrest⟩ := bind_eq_ok.mp h
      obtain ⟨-, -, -, d, i, f, hd, -, -, rfl⟩ := accuredInterest_ok hl₁
      rw [ih hrest]
      show compounded (10 ^ 12) d.toNat _ = compounded (10 ^ 12) (_ + _) _
      rw [hd]
      rfl

/-- Accruing in steps loses at most one unit against accruing once, if what the floors drop on the
opening debt stays below two units; and only if it does, as long as interest earns nothing. -/
theorem accuredThrough_keeps (htotal : total.toNat = (steps.map (·.toNat)).sum)
    (hmany : l.accuredThrough bps fee steps = .ok many)
    (honce : l.accuredInterest bps total fee = .ok once) :
    (dropped (10 ^ 12) l.borrowedAmountSf.toNat (periodRate bps.toNat total.toNat)
        (stepRates bps steps) < 2 * 10 ^ 12 →
      once.borrowedAmountSf.toNat ≤ many.borrowedAmountSf.toNat + 1) ∧
    (Inert (10 ^ 12) l.borrowedAmountSf.toNat (stepRates bps steps) →
      (once.borrowedAmountSf.toNat ≤ many.borrowedAmountSf.toNat + 1 ↔
        dropped (10 ^ 12) l.borrowedAmountSf.toNat (periodRate bps.toNat total.toNat)
          (stepRates bps steps) < 2 * 10 ^ 12)) := by
  have hrates : (stepRates bps steps).sum ≤ periodRate bps.toNat total.toNat := by
    rw [htotal]
    exact stepRates_sum_le bps steps
  have hunit : 0 < 10 ^ 12 := by decide
  have hiff := whole_le_booked_add_iff l.borrowedAmountSf.toNat 1 hunit hrates
  have hdebt := accuredThrough_debt hmany
  obtain ⟨-, -, -, d, i, f, hd, -, -, rfl⟩ := accuredInterest_ok honce
  simp only [hd]
  constructor
  · intro hdrop
    have hwhole := hiff.mpr hdrop
    have hbooked := booked_le_compounded (10 ^ 12) (stepRates bps steps) l.borrowedAmountSf.toNat
    omega
  · intro hinert
    rw [← hiff, hdebt, compounded_of_inert hinert]
    omega

/-- A liquidity record with a given debt. -/
def owedLiquidity (debt : U128) : ReserveLiquidity :=
  { ReserveLiquidity.init (.key 5) (.liquidityVault (.key 3)) (.feeVault (.key 3)) with
    borrowedAmountSf := debt }

theorem accuredThrough_keeps_daily : ∃ many once,
    (owedLiquidity 1000000000000).accuredThrough 500 100 [172800, 172800, 172800] = .ok many ∧
      (owedLiquidity 1000000000000).accuredInterest 500 518400 100 = .ok once ∧
      once.borrowedAmountSf.toNat ≤ many.borrowedAmountSf.toNat + 1 := by
  have hok : ((owedLiquidity 1000000000000).accuredThrough 500 100
      [172800, 172800, 172800]).toOption.any (fun _ =>
        ((owedLiquidity 1000000000000).accuredInterest 500 518400 100).toOption.any fun _ => true) =
      true := by decide
  obtain ⟨many, hmany, hok⟩ := toOption_any.mp hok
  obtain ⟨once, honce, -⟩ := toOption_any.mp hok
  exact ⟨many, once, hmany, honce,
    (accuredThrough_keeps (by decide) hmany honce).1 (by decide +kernel)⟩

/-- A debt of 1000 units at 100% a year, refreshed every nine hours, earns nothing. -/
theorem not_forall_accuredThrough : ¬ ∀ (l many once : ReserveLiquidity) (bps fee total : U64)
    (steps : List U64), 0 < bps → steps ≠ [] → (∀ n ∈ steps, 0 < n) →
    total.toNat = (steps.map (·.toNat)).sum → l.accuredThrough bps fee steps = .ok many →
    l.accuredInterest bps total fee = .ok once →
    once.borrowedAmountSf.toNat ≤ many.borrowedAmountSf.toNat + 1 := by
  intro hall
  have hrun : ((owedLiquidity 1000).accuredThrough 10000 100
      (List.replicate 4 63071)).toOption.any (fun many =>
        ((owedLiquidity 1000).accuredInterest 10000 252284 100).toOption.any fun once =>
          many.borrowedAmountSf.toNat = 1000 && once.borrowedAmountSf.toNat = 1003) = true := by
    decide
  obtain ⟨many, hmany, hrun⟩ := toOption_any.mp hrun
  obtain ⟨once, honce, hrun⟩ := toOption_any.mp hrun
  obtain ⟨hm, ho⟩ := Bool.and_eq_true_iff.mp hrun
  have hpos : ∀ n ∈ List.replicate 4 (63071 : U64), 0 < n := by
    intro n hn
    rw [List.eq_of_mem_replicate hn]
    decide
  have hle := hall _ _ _ _ _ _ _ (by decide) (List.cons_ne_nil _ _) hpos rfl hmany honce
  rw [of_decide_eq_true hm, of_decide_eq_true ho] at hle
  omega

end ReserveLiquidity

end VeilVault
