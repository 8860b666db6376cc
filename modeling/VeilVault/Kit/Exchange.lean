/-
# Kit.Exchange — paying in one asset, being paid in shares of another.

A payment has a value.  A premium is put on top, the value is divided by the price of another
asset, and the units of that asset are turned into shares of a pool that holds it.  Each of the
three divisions rounds down, so the buyer never gets more than the premium allows, and gets the
value of the payment back up to one unit of the asset and one share.
-/
import Mathlib.Tactic.Common
import Mathlib.Tactic.Ring

namespace Kit

variable {value num den price assets shares n m : ℕ}

/-! ## Units and shares -/

/-- Whole units of an asset for a value, with a premium of `num / den`. -/
def unitsFor (value num den price : ℕ) : ℕ := value * num / den / price

/-- Whole shares for units of the asset, in a pool of `assets` units and `shares` shares. -/
def sharesFor (units assets shares : ℕ) : ℕ := units * shares / assets

theorem unitsFor_mul_le (value num den price : ℕ) :
    unitsFor value num den price * price * den ≤ value * num :=
  calc value * num / den / price * price * den
      ≤ value * num / den * den := Nat.mul_le_mul_right den (Nat.div_mul_le_self _ _)
    _ ≤ value * num := Nat.div_mul_le_self _ _

/-- With a premium of at least one, one unit more is worth more than the value. -/
theorem lt_unitsFor_succ (value : ℕ) (hden : 0 < den) (hnum : den ≤ num) (hprice : 0 < price) :
    value < (unitsFor value num den price + 1) * price := by
  have hvalue : value ≤ value * num / den := by
    rw [Nat.le_div_iff_mul_le hden]
    exact Nat.mul_le_mul_left value hnum
  calc value
      ≤ value * num / den := hvalue
    _ < price * (value * num / den / price + 1) := Nat.lt_mul_div_succ _ hprice
    _ = (unitsFor value num den price + 1) * price := Nat.mul_comm _ _

theorem sharesFor_mul_le (units assets shares : ℕ) :
    sharesFor units assets shares * assets ≤ units * shares :=
  Nat.div_mul_le_self _ _

theorem lt_sharesFor_succ (units shares : ℕ) (hassets : 0 < assets) :
    units * shares < (sharesFor units assets shares + 1) * assets := by
  rw [Nat.mul_comm _ assets]
  exact Nat.lt_mul_div_succ _ hassets

/-- Whoever gets no more than is bought gets no more than the value and the premium. -/
theorem mul_le_of_le_bought
    (h : n ≤ sharesFor (unitsFor value num den price) assets shares) :
    n * assets * price * den ≤ value * num * shares := by
  have hshares : n * assets ≤ unitsFor value num den price * shares :=
    Nat.le_trans (Nat.mul_le_mul_right assets h) (sharesFor_mul_le _ _ _)
  calc n * assets * price * den
      ≤ unitsFor value num den price * shares * price * den := by
        apply Nat.mul_le_mul_right
        exact Nat.mul_le_mul_right price hshares
    _ = unitsFor value num den price * price * den * shares := by ring
    _ ≤ value * num * shares := Nat.mul_le_mul_right _ (unitsFor_mul_le _ _ _ _)

/-! ## Worth -/

/-- `n` shares are worth the value, up to one share and one unit of the asset. -/
def WorthAtLeast (value price assets shares n : ℕ) : Prop :=
  value * shares ≤ (n + 1) * assets * price + shares * price

theorem WorthAtLeast.mono (h : WorthAtLeast value price assets shares n) (hle : n ≤ m) :
    WorthAtLeast value price assets shares m := by
  refine Nat.le_trans h ?_
  apply Nat.add_le_add_right
  apply Nat.mul_le_mul_right
  apply Nat.mul_le_mul_right
  exact Nat.succ_le_succ hle

/-- What is bought covers the value. -/
theorem worthAtLeast_bought (value shares : ℕ) (hden : 0 < den) (hnum : den ≤ num)
    (hprice : 0 < price) (hassets : 0 < assets) :
    WorthAtLeast value price assets shares
      (sharesFor (unitsFor value num den price) assets shares) := by
  have hunits := lt_unitsFor_succ value hden hnum hprice
  have hshares := lt_sharesFor_succ (unitsFor value num den price) shares hassets
  unfold WorthAtLeast
  calc value * shares
      ≤ (unitsFor value num den price + 1) * price * shares :=
        Nat.mul_le_mul_right shares (Nat.le_of_lt hunits)
    _ = unitsFor value num den price * shares * price + shares * price := by ring
    _ ≤ (sharesFor (unitsFor value num den price) assets shares + 1) * assets * price +
          shares * price :=
        Nat.add_le_add_right (Nat.mul_le_mul_right price (Nat.le_of_lt hshares)) _

/-- With only so many shares to be had, the value is covered exactly when all of them cover it. -/
theorem worthAtLeast_min_iff (shares stock : ℕ) (hden : 0 < den) (hnum : den ≤ num)
    (hprice : 0 < price) (hassets : 0 < assets) :
    WorthAtLeast value price assets shares
        (min (sharesFor (unitsFor value num den price) assets shares) stock) ↔
      WorthAtLeast value price assets shares stock := by
  constructor
  · intro h
    exact h.mono (Nat.min_le_right _ _)
  · intro h
    rcases Nat.le_total (sharesFor (unitsFor value num den price) assets shares) stock with
      hall | hpart
    · rw [Nat.min_eq_left hall]
      exact worthAtLeast_bought value shares hden hnum hprice hassets
    · rw [Nat.min_eq_right hpart]
      exact h

/-! ## Cover

A debt with collateral behind it is paid back in part, and collateral is taken for the payment at a
premium.  A debt that stands at `t / m` of the collateral keeps its ratio as long as the premium is
no more than `m / t`. -/

section Cover

variable {collateral collateral' debt debt' paid taken unit t m : ℕ}

theorem taken_mul_le (hden : 0 < den) (hpremium : taken * den ≤ paid * num)
    (hcap : num * t ≤ den * m) : taken * t ≤ paid * m := by
  apply Nat.le_of_mul_le_mul_right _ hden
  calc taken * t * den
      = taken * den * t := by ring
    _ ≤ paid * num * t := Nat.mul_le_mul_right t hpremium
    _ = paid * (num * t) := by ring
    _ ≤ paid * (den * m) := Nat.mul_le_mul_left paid hcap
    _ = paid * m * den := by ring

/-- For a debt at most one unit above `t / m` of the collateral, up to that unit. -/
theorem ratio_kept (hm : 0 < m) (hcollateral : collateral ≤ collateral' + taken)
    (hdebt : debt' + paid = debt) (htaken : taken * t ≤ paid * m)
    (hedge : debt * m ≤ collateral * t + unit * m) :
    collateral * debt' ≤ collateral' * debt + collateral * unit := by
  by_cases hsmall : debt' ≤ unit
  · -- so little is left that the unit covers it
    exact Nat.le_trans (Nat.mul_le_mul_left collateral hsmall) (Nat.le_add_left _ _)
  · have hlt : taken * t < collateral * t := by
      have hpaid : (paid + unit) * m < debt * m := by
        apply Nat.mul_lt_mul_of_pos_right _ hm
        omega
      rw [Nat.add_mul] at hpaid
      omega
    have hle : taken ≤ collateral := Nat.le_of_lt (Nat.lt_of_mul_lt_mul_right hlt)
    -- the part of the collateral that was taken is at most the part of the debt that was paid
    have hshare : taken * debt ≤ collateral * (paid + unit) := by
      apply Nat.le_of_mul_le_mul_right _ hm
      calc taken * debt * m
          = taken * (debt * m) := by ring
        _ ≤ taken * (collateral * t + unit * m) := Nat.mul_le_mul_left taken hedge
        _ = collateral * (taken * t) + taken * (unit * m) := by ring
        _ ≤ collateral * (paid * m) + collateral * (unit * m) :=
            Nat.add_le_add (Nat.mul_le_mul_left collateral htaken)
              (Nat.mul_le_mul_right (unit * m) hle)
        _ = collateral * (paid + unit) * m := by ring
    -- what was paid is put on both sides, where the two parts of the debt add up
    have hwhole : collateral * debt' + collateral * paid ≤
        collateral' * debt + collateral * unit + collateral * paid :=
      calc collateral * debt' + collateral * paid
          = collateral * debt := by rw [← hdebt, Nat.mul_add]
        _ ≤ (collateral' + taken) * debt := Nat.mul_le_mul_right debt hcollateral
        _ = collateral' * debt + taken * debt := Nat.add_mul _ _ _
        _ ≤ collateral' * debt + collateral * (paid + unit) := Nat.add_le_add_left hshare _
        _ = collateral' * debt + collateral * unit + collateral * paid := by ring
    exact Nat.le_of_add_le_add_right hwhole

/-- Taking a number of shares lowers the units they stand for by no more than what buys them. -/
theorem units_le_of_taken (hshares : 0 < shares) {left units : ℕ}
    (h : n * assets ≤ units * shares) (hleft : left + n = m) :
    m * assets / shares ≤ left * assets / shares + units := by
  rw [← Nat.add_mul_div_right _ _ hshares, ← hleft, Nat.add_mul]
  apply Nat.div_le_div_right
  exact Nat.add_le_add_left h _

end Cover

end Kit
