/-
# Kit.Reflected — a counter that stops at zero.

Signed changes are added to a natural number, and a change that would take it below zero leaves it
at zero.  What a run of changes leaves has a closed form: it is the least bound on the sum of all
changes from the start, and on the sum of the changes of every end of the run
(`foldl_reflect_isLeast`).  It is their plain sum exactly when no beginning of the run goes below
zero (`foldl_reflect_eq_iff`).
-/
import Mathlib.Algebra.BigOperators.Group.List.Basic
import Mathlib.Algebra.Order.Ring.Int
import Mathlib.Data.List.Induction
import Mathlib.Order.Bounds.Basic

namespace Kit

/-- Add `d`, and stop at zero. -/
def reflect (n : ℕ) (d : ℤ) : ℕ := (n + d).toNat

theorem reflect_cast (n : ℕ) (d : ℤ) : (reflect n d : ℤ) = max (n + d) 0 :=
  Int.toNat_eq_max _

theorem le_reflect (n : ℕ) (d : ℤ) : n + d ≤ reflect n d := by
  rw [reflect_cast]
  exact le_max_left _ _

theorem reflect_eq_iff (n : ℕ) (d : ℤ) : (reflect n d : ℤ) = n + d ↔ 0 ≤ n + d := by
  rw [reflect_cast, max_eq_left_iff]

/-- What a run leaves is the least bound on the sum from the start and on the sum of every end. -/
theorem foldl_reflect_isLeast (n : ℕ) (ds : List ℤ) :
    IsLeast {m : ℤ | n + ds.sum ≤ m ∧ ∀ t, t <:+ ds → t.sum ≤ m} (ds.foldl reflect n : ℕ) := by
  induction ds using List.reverseRecOn with
  | nil =>
      refine ⟨⟨?_, ?_⟩, fun m hm => ?_⟩
      · simp
      · intro t ht
        simp [List.suffix_nil.mp ht]
      · simpa using hm.1
  | append_singleton ds d ih =>
      obtain ⟨⟨hsum, hends⟩, hleast⟩ := ih
      rw [List.foldl_concat, List.sum_append, List.sum_singleton]
      constructor
      · constructor
        · have := le_reflect (ds.foldl reflect n) d
          omega
        · intro t ht
          rcases List.suffix_concat_iff.mp ht with rfl | ⟨t', rfl, ht'⟩
          · exact Int.natCast_nonneg _
          · rw [List.sum_append, List.sum_singleton]
            have := le_reflect (ds.foldl reflect n) d
            have := hends t' ht'
            omega
      · rintro m ⟨hsum', hends'⟩
        -- a bound for the longer run is one for the shorter, less the last change
        have hbound : ((ds.foldl reflect n : ℕ) : ℤ) ≤ m - d := by
          refine hleast ⟨by omega, fun t ht => ?_⟩
          have := hends' (t ++ [d]) (List.suffix_concat_iff.mpr (.inr ⟨t, rfl, ht⟩))
          rw [List.sum_append, List.sum_singleton] at this
          omega
        have hzero : 0 ≤ m := hends' [] (List.nil_suffix ..)
        rw [reflect_cast, max_le_iff]
        exact ⟨by omega, hzero⟩

/-- The run leaves the plain sum, exactly when none of its beginnings goes below zero. -/
theorem foldl_reflect_eq_iff (n : ℕ) (ds : List ℤ) :
    ((ds.foldl reflect n : ℕ) : ℤ) = n + ds.sum ↔ ∀ t, t <+: ds → 0 ≤ n + t.sum := by
  induction ds using List.reverseRecOn with
  | nil =>
      refine iff_of_true (by simp) fun t ht => ?_
      simp [List.prefix_nil.mp ht]
  | append_singleton ds d ih =>
      have hle : n + ds.sum ≤ (ds.foldl reflect n : ℕ) := (foldl_reflect_isLeast n ds).1.1
      have hstep := le_reflect (ds.foldl reflect n) d
      rw [List.foldl_concat, List.sum_append, List.sum_singleton]
      constructor
      · intro h t ht
        -- nothing that stopped at zero is made up for later
        have hds : ((ds.foldl reflect n : ℕ) : ℤ) = n + ds.sum := by omega
        rcases List.prefix_concat_iff.mp ht with rfl | ht
        · rw [List.sum_append, List.sum_singleton]
          omega
        · exact ih.mp hds t ht
      · intro h
        have hds := ih.mpr fun t ht => h t (ht.trans (List.prefix_append ..))
        have hlast : 0 ≤ n + (ds ++ [d]).sum := h _ (List.prefix_refl _)
        rw [List.sum_append, List.sum_singleton] at hlast
        have := (reflect_eq_iff (ds.foldl reflect n) d).mpr (by omega)
        omega

end Kit
