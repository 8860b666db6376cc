/-
# Kit.Compounding — interest booked in whole units, step after step.

A debt of whole units grows by a rate in units of `1 / unit`, and only whole units of the interest
are booked.  Splitting one rate into several books compound interest, but drops a fraction of a unit
at every step.  `dropped` is what the steps lose on the opening debt; it decides the comparison with
one step as long as the interest earned on interest does not reach a unit (`Inert`).
-/
import Mathlib.Algebra.Order.BigOperators.Group.List
import Mathlib.Tactic.Common
import Mathlib.Tactic.Ring

namespace Kit

/-- One debt under several rates in turn. -/
def compounded (unit debt : ℕ) : List ℕ → ℕ
  | [] => debt
  | rate :: rates => compounded unit (debt + rate * debt / unit) rates

/-- The whole units that the rates book on one and the same debt. -/
def booked (unit debt : ℕ) (rates : List ℕ) : ℕ := (rates.map fun p => p * debt / unit).sum

/-- What `rates` lose on a debt against the one rate `whole`: the rate they are short of, and the
fraction of a unit of every step. -/
def dropped (unit debt whole : ℕ) (rates : List ℕ) : ℕ :=
  (whole - rates.sum) * debt + (rates.map fun p => p * debt % unit).sum

/-- No step books more on the debt with all the interest than on the debt alone. -/
def Inert (unit debt : ℕ) (rates : List ℕ) : Prop :=
  ∀ p ∈ rates, p * (debt + booked unit debt rates) / unit = p * debt / unit

variable {unit debt whole : ℕ} {rates : List ℕ}

theorem booked_mono {debt' : ℕ} (h : debt ≤ debt') (rates : List ℕ) :
    booked unit debt rates ≤ booked unit debt' rates := by
  unfold booked
  apply List.sum_le_sum
  intro p _
  exact Nat.div_le_div_right (Nat.mul_le_mul_left p h)

/-- Compounding books at least what the steps book on the opening debt. -/
theorem booked_le_compounded (unit : ℕ) (rates : List ℕ) :
    ∀ debt, debt + booked unit debt rates ≤ compounded unit debt rates := by
  induction rates with
  | nil =>
      intro debt
      exact le_refl _
  | cons p ps ih =>
      intro debt
      calc debt + booked unit debt (p :: ps)
          = debt + p * debt / unit + booked unit debt ps := (Nat.add_assoc _ _ _).symm
        _ ≤ debt + p * debt / unit + booked unit (debt + p * debt / unit) ps :=
            Nat.add_le_add_left (booked_mono (Nat.le_add_right _ _) ps) _
        _ ≤ compounded unit (debt + p * debt / unit) ps := ih _

/-- When interest earns nothing, the steps book exactly what they book on the opening debt. -/
theorem compounded_of_inert (h : Inert unit debt rates) :
    compounded unit debt rates = debt + booked unit debt rates := by
  -- the debt met by a later step lies between the opening debt and the debt with all the interest
  suffices hmid : ∀ (rates : List ℕ) (now top : ℕ), debt ≤ now →
      now + booked unit debt rates ≤ top → (∀ p ∈ rates, p * top / unit = p * debt / unit) →
      compounded unit now rates = now + booked unit debt rates from
    hmid rates debt _ (le_refl _) (le_refl _) h
  intro rates
  induction rates with
  | nil => exact fun _ _ _ _ _ => rfl
  | cons p ps ih =>
      intro now top hnow htop hsame
      have hcons : booked unit debt (p :: ps) = p * debt / unit + booked unit debt ps := rfl
      have hstep : p * now / unit = p * debt / unit := by
        apply Nat.le_antisymm
        · rw [← hsame p List.mem_cons_self]
          exact Nat.div_le_div_right (Nat.mul_le_mul_left p (by omega))
        · exact Nat.div_le_div_right (Nat.mul_le_mul_left p hnow)
      rw [hcons, ← Nat.add_assoc] at htop
      rw [compounded, hstep, hcons, ← Nat.add_assoc]
      exact ih _ top (Nat.le_add_right_of_le hnow) htop fun q hq =>
        hsame q (List.mem_cons_of_mem p hq)

/-- One rate's interest is what its parts book, and what they drop. -/
theorem whole_eq_booked_add_dropped (unit debt : ℕ) (h : rates.sum ≤ whole) :
    whole * debt = unit * booked unit debt rates + dropped unit debt whole rates := by
  have hparts : rates.sum * debt =
      unit * booked unit debt rates + (rates.map fun p => p * debt % unit).sum := by
    clear h
    induction rates with
    | nil =>
        rw [List.sum_nil, Nat.zero_mul, booked, List.map_nil, List.map_nil]
        rfl
    | cons p ps ih =>
        have hp := Nat.div_add_mod (p * debt) unit
        have hcons : booked unit debt (p :: ps) = p * debt / unit + booked unit debt ps := rfl
        rw [List.sum_cons, Nat.add_mul, ih, hcons, List.map_cons, List.sum_cons, Nat.mul_add]
        omega
  rw [dropped, Nat.sub_mul, hparts]
  have hle : rates.sum * debt ≤ whole * debt := Nat.mul_le_mul_right _ h
  omega

/-- On the opening debt the parts fall short of the whole by at most `m` units exactly when they
drop less than one unit more. -/
theorem whole_le_booked_add_iff (debt m : ℕ) (hunit : 0 < unit) (h : rates.sum ≤ whole) :
    whole * debt / unit ≤ booked unit debt rates + m ↔
      dropped unit debt whole rates < (m + 1) * unit := by
  rw [← Nat.lt_succ_iff, Nat.div_lt_iff_lt_mul hunit, whole_eq_booked_add_dropped unit debt h,
    show (booked unit debt rates + m).succ * unit =
      unit * booked unit debt rates + (m + 1) * unit by rw [Nat.succ_eq_add_one]; ring]
  exact Nat.add_lt_add_iff_left

end Kit
