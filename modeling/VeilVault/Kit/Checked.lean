/-
# Kit.Checked — unsigned machine arithmetic that refuses to wrap.

The words are `BitVec w`, so that every value carries its own bound.  Each operation comes with one
equation or one inversion lemma into `Nat`: a checked operation succeeds exactly when the result
over the naturals fits, and then the result *is* the natural one.  Nothing downstream reasons about
bits; proofs leave this file through `toNat` and continue with `omega` or Mathlib.
-/
import Mathlib.Algebra.Ring.Nat
import Mathlib.Data.Nat.Basic
import Mathlib.Tactic.Cases

namespace Kit

variable {w : Nat}

/-! ## Checked operations -/

/-- `x + y`, or nothing when the sum does not fit. -/
def checkedAdd (x y : BitVec w) : Option (BitVec w) :=
  if h : x.toNat + y.toNat < 2 ^ w then some (BitVec.ofNatLT (x.toNat + y.toNat) h) else none

/-- `x - y`, or nothing when the difference is negative. -/
def checkedSub (x y : BitVec w) : Option (BitVec w) :=
  if y.toNat ≤ x.toNat then
    some (BitVec.ofNatLT (x.toNat - y.toNat) (Nat.lt_of_le_of_lt (Nat.sub_le _ _) x.isLt))
  else none

/-- `x * y`, or nothing when the product does not fit. -/
def checkedMul (x y : BitVec w) : Option (BitVec w) :=
  if h : x.toNat * y.toNat < 2 ^ w then some (BitVec.ofNatLT (x.toNat * y.toNat) h) else none

/-- `x / y` rounded down, or nothing when the divisor is zero. -/
def checkedDiv (x y : BitVec w) : Option (BitVec w) :=
  if y.toNat = 0 then none
  else some (BitVec.ofNatLT (x.toNat / y.toNat) (Nat.lt_of_le_of_lt (Nat.div_le_self _ _) x.isLt))

theorem checkedAdd_eq_some {x y z : BitVec w} :
    checkedAdd x y = some z ↔ z.toNat = x.toNat + y.toNat := by
  unfold checkedAdd
  split
  · rw [Option.some.injEq, ← BitVec.toNat_inj, BitVec.toNat_ofNatLT]
    exact eq_comm
  · have := z.isLt
    simp only [reduceCtorEq, false_iff]
    omega

theorem checkedAdd_eq_none {x y : BitVec w} :
    checkedAdd x y = none ↔ 2 ^ w ≤ x.toNat + y.toNat := by
  unfold checkedAdd
  split <;> simp only [reduceCtorEq, false_iff, true_iff] <;> omega

theorem checkedSub_eq_some {x y z : BitVec w} :
    checkedSub x y = some z ↔ z.toNat + y.toNat = x.toNat := by
  unfold checkedSub
  split
  · rw [Option.some.injEq, ← BitVec.toNat_inj, BitVec.toNat_ofNatLT]
    omega
  · simp only [reduceCtorEq, false_iff]
    omega

theorem checkedSub_eq_none {x y : BitVec w} :
    checkedSub x y = none ↔ x.toNat < y.toNat := by
  unfold checkedSub
  split <;> simp only [reduceCtorEq, false_iff, true_iff] <;> omega

theorem checkedMul_eq_some {x y z : BitVec w} :
    checkedMul x y = some z ↔ z.toNat = x.toNat * y.toNat := by
  unfold checkedMul
  split
  · rw [Option.some.injEq, ← BitVec.toNat_inj, BitVec.toNat_ofNatLT]
    exact eq_comm
  · have := z.isLt
    simp only [reduceCtorEq, false_iff]
    omega

theorem checkedMul_eq_none {x y : BitVec w} :
    checkedMul x y = none ↔ 2 ^ w ≤ x.toNat * y.toNat := by
  unfold checkedMul
  split <;> simp only [reduceCtorEq, false_iff, true_iff] <;> omega

theorem checkedDiv_eq_some {x y z : BitVec w} :
    checkedDiv x y = some z ↔ y.toNat ≠ 0 ∧ z.toNat = x.toNat / y.toNat := by
  unfold checkedDiv
  split
  case isTrue h => simp [h]
  case isFalse h =>
    rw [Option.some.injEq, ← BitVec.toNat_inj, BitVec.toNat_ofNatLT]
    exact ⟨fun he => ⟨h, he.symm⟩, fun he => he.2.symm⟩

theorem checkedDiv_eq_none {x y : BitVec w} : checkedDiv x y = none ↔ y.toNat = 0 := by
  unfold checkedDiv
  split <;> simp_all

/-- A sum that fits is computed. -/
theorem exists_checkedAdd {x y : BitVec w} (h : x.toNat + y.toNat < 2 ^ w) :
    ∃ z, checkedAdd x y = some z ∧ z.toNat = x.toNat + y.toNat :=
  ⟨.ofNatLT _ h, checkedAdd_eq_some.mpr (BitVec.toNat_ofNatLT _ h), BitVec.toNat_ofNatLT _ h⟩

theorem exists_checkedSub {x y : BitVec w} (h : y.toNat ≤ x.toNat) :
    ∃ z, checkedSub x y = some z ∧ z.toNat = x.toNat - y.toNat := by
  have hlt : x.toNat - y.toNat < 2 ^ w := Nat.lt_of_le_of_lt (Nat.sub_le _ _) x.isLt
  refine ⟨.ofNatLT _ hlt, checkedSub_eq_some.mpr ?_, BitVec.toNat_ofNatLT _ hlt⟩
  rw [BitVec.toNat_ofNatLT]
  exact Nat.sub_add_cancel h

theorem exists_checkedMul {x y : BitVec w} (h : x.toNat * y.toNat < 2 ^ w) :
    ∃ z, checkedMul x y = some z ∧ z.toNat = x.toNat * y.toNat :=
  ⟨.ofNatLT _ h, checkedMul_eq_some.mpr (BitVec.toNat_ofNatLT _ h), BitVec.toNat_ofNatLT _ h⟩

theorem exists_checkedDiv {x y : BitVec w} (h : y.toNat ≠ 0) :
    ∃ z, checkedDiv x y = some z ∧ z.toNat = x.toNat / y.toNat := by
  have hlt : x.toNat / y.toNat < 2 ^ w := Nat.lt_of_le_of_lt (Nat.div_le_self _ _) x.isLt
  exact ⟨.ofNatLT _ hlt, checkedDiv_eq_some.mpr ⟨h, BitVec.toNat_ofNatLT _ hlt⟩,
    BitVec.toNat_ofNatLT _ hlt⟩

/-! ## Saturating operations -/

/-- `x + y`, clamped to the largest word. -/
def saturatingAdd (x y : BitVec w) : BitVec w :=
  (checkedAdd x y).getD (BitVec.allOnes w)

/-- `x - y`, clamped to zero. -/
def saturatingSub (x y : BitVec w) : BitVec w :=
  (checkedSub x y).getD 0

/-- `x * y`, clamped to the largest word. -/
def saturatingMul (x y : BitVec w) : BitVec w :=
  (checkedMul x y).getD (BitVec.allOnes w)

theorem toNat_saturatingAdd (x y : BitVec w) :
    (saturatingAdd x y).toNat = min (x.toNat + y.toNat) (2 ^ w - 1) := by
  unfold saturatingAdd
  cases h : checkedAdd x y with
  | none =>
      have := checkedAdd_eq_none.mp h
      simp only [Option.getD_none, BitVec.toNat_allOnes]
      omega
  | some z =>
      have := checkedAdd_eq_some.mp h
      have := z.isLt
      simp only [Option.getD_some]
      omega

theorem toNat_saturatingSub (x y : BitVec w) :
    (saturatingSub x y).toNat = x.toNat - y.toNat := by
  unfold saturatingSub
  cases h : checkedSub x y with
  | none =>
      have := checkedSub_eq_none.mp h
      simp only [Option.getD_none, BitVec.ofNat_eq_ofNat, BitVec.toNat_zero]
      omega
  | some z =>
      have := checkedSub_eq_some.mp h
      simp only [Option.getD_some]
      omega

theorem toNat_saturatingMul (x y : BitVec w) :
    (saturatingMul x y).toNat = min (x.toNat * y.toNat) (2 ^ w - 1) := by
  unfold saturatingMul
  cases h : checkedMul x y with
  | none =>
      have := checkedMul_eq_none.mp h
      simp only [Option.getD_none, BitVec.toNat_allOnes]
      omega
  | some z =>
      have := checkedMul_eq_some.mp h
      have := z.isLt
      simp only [Option.getD_some]
      omega

/-! ## Sums -/

/-- The sum of a list of words, or nothing when a partial sum does not fit. -/
def checkedSum (xs : List (BitVec w)) : Option (BitVec w) :=
  xs.foldlM checkedAdd 0

/-- The sum of a list of words, clamped to the largest word at every step. -/
def saturatingSum (xs : List (BitVec w)) : BitVec w :=
  xs.foldl saturatingAdd 0

/-- Partial sums grow, so the checked sum exists exactly when the whole sum fits. -/
theorem foldlM_checkedAdd_eq_some {xs : List (BitVec w)} {acc z : BitVec w} :
    xs.foldlM checkedAdd acc = some z ↔ z.toNat = acc.toNat + (xs.map BitVec.toNat).sum := by
  induction xs generalizing acc with
  | nil =>
      simp only [List.foldlM_nil, Option.pure_def, Option.some.injEq, List.map_nil, List.sum_nil,
        Nat.add_zero, ← BitVec.toNat_inj]
      exact eq_comm
  | cons x xs ih =>
      simp only [List.foldlM_cons, Option.bind_eq_bind, Option.bind_eq_some_iff, ih,
        checkedAdd_eq_some, List.map_cons, List.sum_cons]
      constructor
      · rintro ⟨a, ha, hz⟩
        omega
      · intro hz
        have hfit : acc.toNat + x.toNat < 2 ^ w := by have := z.isLt; omega
        exact ⟨BitVec.ofNatLT _ hfit, by simp, by simp; omega⟩

theorem checkedSum_eq_some {xs : List (BitVec w)} {z : BitVec w} :
    checkedSum xs = some z ↔ z.toNat = (xs.map BitVec.toNat).sum := by
  rw [checkedSum, foldlM_checkedAdd_eq_some]
  simp

theorem toNat_foldl_saturatingAdd (xs : List (BitVec w)) (acc : BitVec w) :
    (xs.foldl saturatingAdd acc).toNat =
      min (acc.toNat + (xs.map BitVec.toNat).sum) (2 ^ w - 1) := by
  induction xs generalizing acc with
  | nil =>
      have := acc.isLt
      simp only [List.foldl_nil, List.map_nil, List.sum_nil]
      omega
  | cons x xs ih =>
      simp only [List.foldl_cons, ih, toNat_saturatingAdd, List.map_cons, List.sum_cons]
      omega

theorem toNat_saturatingSum (xs : List (BitVec w)) :
    (saturatingSum xs).toNat = min (xs.map BitVec.toNat).sum (2 ^ w - 1) := by
  rw [saturatingSum, toNat_foldl_saturatingAdd]
  simp

/-! ## Casts -/

/-- A widening cast keeps the value. -/
theorem toNat_widen {v : Nat} (h : w ≤ v) (x : BitVec w) : (x.setWidth v).toNat = x.toNat :=
  BitVec.toNat_setWidth_of_le h

/-- A narrowing cast keeps a value that fits. -/
theorem toNat_narrow_of_lt {v : Nat} {x : BitVec w} (h : x.toNat < 2 ^ v) :
    (x.setWidth v).toNat = x.toNat := by
  rw [BitVec.toNat_setWidth, Nat.mod_eq_of_lt h]

theorem ne_zero_iff_toNat_pos {x : BitVec w} : 0 < x.toNat ↔ x ≠ 0 := by
  rw [Nat.pos_iff_ne_zero, ne_eq, ne_eq, ← BitVec.toNat_inj]
  simp

end Kit
