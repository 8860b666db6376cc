/-
# Kit.IndexedDebt — debts that grow with an index.

A debt of `d` that was last brought to the index `i` is a *share* `d / i` of whatever the index
grows to; bringing it to another index and rounding down keeps or lowers the share.  A lender who
books the sum of all debts under the same index has a share of his own, and as long as his share
covers the borrowers' shares, his book covers their debts, at any index and however these are
rounded down.  His share falls only when his book grows by a smaller factor than the index.
-/
import Mathlib.Algebra.BigOperators.Ring.Finset
import Mathlib.Algebra.Order.Field.Rat
import Mathlib.Data.Nat.Cast.Order.Field
import Mathlib.Tactic.FieldSimp
import Mathlib.Tactic.Positivity
import Mathlib.Tactic.Push
import VeilVault.Kit.Covers

namespace Kit

/-- The share of a debt `d` at the index `i`. -/
def share (d i : ℕ) : ℚ := d / i

variable {d i c D I : ℕ}

theorem share_nonneg (d i : ℕ) : 0 ≤ share d i := by
  unfold share
  positivity

theorem share_zero (i : ℕ) : share 0 i = 0 := by
  rw [share, Nat.cast_zero, zero_div]

theorem share_add (d a i : ℕ) : share (d + a) i = share d i + share a i := by
  rw [share, Nat.cast_add, add_div]
  rfl

theorem share_mono (h : d ≤ c) (i : ℕ) : share d i ≤ share c i := by
  unfold share
  gcongr

theorem le_of_share_le (hi : 0 < i) (h : share d i ≤ share c i) : d ≤ c := by
  rw [share, share, div_le_div_iff_of_pos_right (Nat.cast_pos.mpr hi)] at h
  exact_mod_cast h

/-- Brought to another index and rounded down, a debt keeps or loses share. -/
theorem share_grown (hc : 0 < c) : share (d * c / i) c ≤ share d i := by
  have hc' : (0 : ℚ) < c := Nat.cast_pos.mpr hc
  unfold share
  calc ((d * c / i : ℕ) : ℚ) / c
      ≤ ((d * c : ℕ) : ℚ) / i / c := by
        gcongr
        exact Nat.cast_div_le
    _ = (d : ℚ) / i := by
        rw [Nat.cast_mul]
        field_simp

/-- The share that rounding down costs is less than one unit at the new index. -/
theorem share_le_grown (hc : 0 < c) (hi : 0 < i) :
    share d i ≤ share (d * c / i) c + share 1 c := by
  have hc' : (0 : ℚ) < c := Nat.cast_pos.mpr hc
  have hi' : (0 : ℚ) < i := Nat.cast_pos.mpr hi
  have hfloor : d * c < (d * c / i + 1) * i := by
    rw [Nat.add_mul, Nat.one_mul]
    exact Nat.lt_div_mul_add hi
  rw [← share_add, share, share, div_le_div_iff₀ hi' hc']
  exact_mod_cast Nat.le_of_lt hfloor

/-- At a higher index the same debt is a smaller share. -/
theorem share_anti (hi : 0 < i) (h : i ≤ c) (d : ℕ) : share d c ≤ share d i := by
  have hi' : (0 : ℚ) < i := Nat.cast_pos.mpr hi
  unfold share
  gcongr

/-- `n` times the index is a debt of share `n`. -/
theorem share_self_mul (hi : 0 < i) (n : ℕ) : share (n * i) i = n := by
  have hi' : (i : ℚ) ≠ 0 := Nat.cast_ne_zero.mpr hi.ne'
  rw [share, Nat.cast_mul, mul_div_assoc, div_self hi', mul_one]

theorem share_mul (d s i : ℕ) : share (d * s) i = share d i * s := by
  rw [share, share, Nat.cast_mul, div_mul_eq_mul_div]

/-- A book keeps its share exactly when it grows by at least the factor of the index. -/
theorem share_keepsPace {e g : ℕ} (hI : 0 < I) :
    share D I ≤ share (D + e) (I + g) ↔ D * g ≤ e * I := by
  unfold share
  rw [div_le_div_iff₀ (Nat.cast_pos.mpr hI) (Nat.cast_pos.mpr (Nat.add_pos_left hI g))]
  have hcross : D * (I + g) ≤ (D + e) * I ↔ D * g ≤ e * I := by
    rw [Nat.mul_add, Nat.add_mul]
    exact Nat.add_le_add_iff_left
  rw [← hcross]
  norm_cast

/-- A book that grows in whole units falls behind its index by less than one of them. -/
theorem share_lags {e g : ℕ} (hI : 0 < I) (h : D * g ≤ (e + 1) * I) :
    share D I ≤ share (D + e) (I + g) + share 1 (I + g) := by
  rw [← share_add, Nat.add_assoc]
  exact (share_keepsPace hI).mpr h

/-- A debt read at the index `I` is at most its share of `I`. -/
theorem grown_le_share (d i I : ℕ) : ((d * I / i : ℕ) : ℚ) ≤ share d i * I := by
  calc ((d * I / i : ℕ) : ℚ)
      ≤ ((d * I : ℕ) : ℚ) / i := Nat.cast_div_le
    _ = share d i * I := by rw [Nat.cast_mul, share, div_mul_eq_mul_div]

/-- A share no larger buys no larger debt at any index. -/
theorem le_grown_of_share_le (hi : 0 < i) (hI : 0 < I) (h : share D I ≤ share d i) :
    D ≤ d * I / i := by
  have hi' : (0 : ℚ) < i := Nat.cast_pos.mpr hi
  have hI' : (0 : ℚ) < I := Nat.cast_pos.mpr hI
  rw [share, share, div_le_div_iff₀ hI' hi'] at h
  rw [Nat.le_div_iff_mul_le hi]
  exact_mod_cast h

/-- A debt whose share fell by at most `n` units at the index `i` is short by at most `n` units
grown from `i`. -/
theorem grown_le_add (hI : 0 < I) {n : ℕ} (h : share d i ≤ share D I + share n i) :
    ((d * I / i : ℕ) : ℚ) ≤ D + n * I / i := by
  have hI' : (0 : ℚ) < I := Nat.cast_pos.mpr hI
  calc ((d * I / i : ℕ) : ℚ)
      ≤ share d i * I := grown_le_share d i I
    _ ≤ (share D I + share n i) * I := by gcongr
    _ = D + n * I / i := by
        unfold share
        field_simp

variable {κ : Type}

/-- Borrowers whose shares are covered by the book's owe at most the book, at the book's index. -/
theorem sum_le_of_covers {f : κ → ℚ} {owed : κ → ℕ} (h : Covers f (share D I))
    (howed : ∀ x, (owed x : ℚ) ≤ f x * I) (hI : 0 < I) (F : Finset κ) :
    ∑ x ∈ F, owed x ≤ D := by
  have hI' : (0 : ℚ) < I := Nat.cast_pos.mpr hI
  have hsum : ((∑ x ∈ F, owed x : ℕ) : ℚ) ≤ D := by
    calc ((∑ x ∈ F, owed x : ℕ) : ℚ)
        = ∑ x ∈ F, (owed x : ℚ) := Nat.cast_sum F owed
      _ ≤ ∑ x ∈ F, f x * I := Finset.sum_le_sum fun x _ => howed x
      _ = (∑ x ∈ F, f x) * I := (Finset.sum_mul F f _).symm
      _ ≤ share D I * I := by
          gcongr
          exact h F
      _ = D := div_mul_cancel₀ _ hI'.ne'
  exact_mod_cast hsum

end Kit
