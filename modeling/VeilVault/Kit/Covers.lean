/-
# Kit.Covers — one amount that covers a family of claims on it.

`Covers f v` says that no finite set of claimants has claims above `v`.  Claimants come from an
arbitrary type; nothing has to be summed over the whole type.  One rule does most of the work: when
a single claim changes, it is enough that the amount changes by at least as much
(`Covers.update`).

`Follows` is the exact version, for a run: whatever claims change, the amount changes by their sum.
-/
import Mathlib.Algebra.BigOperators.Group.Finset.Piecewise
import Mathlib.Algebra.BigOperators.Ring.Finset
import Mathlib.Algebra.Order.BigOperators.Group.Finset

namespace Kit

variable {κ M : Type} [AddCommMonoid M] [PartialOrder M]

/-- No finite set of claims in `f` exceeds `v`. -/
def Covers (f : κ → M) (v : M) : Prop := ∀ F : Finset κ, ∑ x ∈ F, f x ≤ v

variable {f f' : κ → M} {v v' : M} {o : κ}

theorem Covers.mono (h : Covers f v) (hv : v ≤ v') : Covers f v' := fun F => (h F).trans hv

/-- Each single claim is covered. -/
theorem Covers.le (h : Covers f v) (x : κ) : f x ≤ v := by
  have hx := h {x}
  rwa [Finset.sum_singleton] at hx

theorem covers_zero (hf : ∀ x, f x = 0) : Covers f 0 := by
  intro F
  exact (Finset.sum_eq_zero fun x _ => hf x).le

variable [IsOrderedCancelAddMonoid M]

/-- One claim changes, and the covering amount by at least as much. -/
theorem Covers.update [DecidableEq κ] (h : Covers f v) (hother : ∀ x, x ≠ o → f' x = f x)
    (hnonneg : 0 ≤ f' o) (hv : f' o + v ≤ f o + v') : Covers f' v' := by
  intro F
  -- with the changed claim taken out, old and new sums agree
  have hrest : ∑ x ∈ F.erase o, f' x = ∑ x ∈ F.erase o, f x :=
    Finset.sum_congr rfl fun x hx => hother x (Finset.ne_of_mem_erase hx)
  have hold : f o + ∑ x ∈ F.erase o, f x ≤ v := by
    rw [← Finset.sum_insert (Finset.notMem_erase o F)]
    exact h _
  have hnew : f' o + ∑ x ∈ F.erase o, f' x ≤ v' := by
    apply le_of_add_le_add_left (a := f o)
    calc f o + (f' o + ∑ x ∈ F.erase o, f' x)
        = f' o + (f o + ∑ x ∈ F.erase o, f x) := by rw [hrest]; exact add_left_comm _ _ _
      _ ≤ f' o + v := add_le_add_right hold _
      _ ≤ f o + v' := hv
  by_cases ho : o ∈ F
  · rw [← Finset.add_sum_erase F f' ho]
    exact hnew
  · rw [Finset.erase_eq_of_notMem ho] at hnew
    exact (le_add_of_nonneg_left hnonneg).trans hnew

/-- Part of one claim passes to another; the cover stays. -/
theorem Covers.move [DecidableEq κ] [CanonicallyOrderedAdd M] {a b : κ} {n : M} (h : Covers f v)
    (hmove : ∀ x, f' x + (if x = a then n else 0) = f x + (if x = b then n else 0)) :
    Covers f' v := by
  intro F
  let G := insert a (insert b F)
  -- both ends of the move are in `G`, so it changes no sum over `G`
  have hsum : ∑ x ∈ G, f' x + n = ∑ x ∈ G, f x + n := by
    have htotal : ∑ x ∈ G, (f' x + (if x = a then n else 0)) =
        ∑ x ∈ G, (f x + (if x = b then n else 0)) := Finset.sum_congr rfl fun x _ => hmove x
    have ha : a ∈ G := Finset.mem_insert_self a _
    have hb : b ∈ G := Finset.mem_insert_of_mem (Finset.mem_insert_self b F)
    rwa [Finset.sum_add_distrib, Finset.sum_add_distrib, Finset.sum_ite_eq', Finset.sum_ite_eq',
      if_pos ha, if_pos hb] at htotal
  have hF : F ⊆ G := (Finset.subset_insert b F).trans (Finset.subset_insert a _)
  calc ∑ x ∈ F, f' x ≤ ∑ x ∈ G, f' x := Finset.sum_le_sum_of_subset hF
    _ = ∑ x ∈ G, f x := add_right_cancel hsum
    _ ≤ v := h G

/-- Shares of `T` in proportion to claims on `S`, each rounded down, are covered by `T`. -/
theorem Covers.shares {f : κ → ℕ} {S : ℕ} (h : Covers f S) (T : ℕ) :
    Covers (fun x => f x * T / S) T := by
  intro F
  rcases Nat.eq_zero_or_pos S with rfl | hS
  · simp only [Nat.div_zero, Finset.sum_const_zero, Nat.zero_le]
  · apply Nat.le_of_mul_le_mul_left _ hS
    calc S * ∑ x ∈ F, f x * T / S = ∑ x ∈ F, S * (f x * T / S) := Finset.mul_sum ..
      _ ≤ ∑ x ∈ F, f x * T := Finset.sum_le_sum fun x _ => Nat.mul_div_le _ _
      _ = (∑ x ∈ F, f x) * T := (Finset.sum_mul ..).symm
      _ ≤ S * T := Nat.mul_le_mul_right T (h F)

/-! ### Claims and an amount that moves with them -/

section Follows

omit [PartialOrder M] [IsOrderedCancelAddMonoid M]

variable [IsCancelAdd M] {f'' : κ → M} {v'' : M}

/-- All but finitely many claims are as they were, and the others together changed by as much as the
amount. -/
def Follows (f f' : κ → M) (v v' : M) : Prop :=
  ∃ F : Finset κ, ∀ G, F ⊆ G → ∑ x ∈ G, f' x + v = ∑ x ∈ G, f x + v'

omit [IsCancelAdd M] in
theorem Follows.refl (f : κ → M) (v : M) : Follows f f v v := ⟨∅, fun _ _ => rfl⟩

theorem Follows.trans [DecidableEq κ] (h : Follows f f' v v') (h' : Follows f' f'' v' v'') :
    Follows f f'' v v'' := by
  obtain ⟨F, hF⟩ := h
  obtain ⟨F', hF'⟩ := h'
  refine ⟨F ∪ F', fun G hG => ?_⟩
  have hfirst := hF G (Finset.union_subset_left hG)
  have hsecond := hF' G (Finset.union_subset_right hG)
  apply add_right_cancel (b := v')
  calc ∑ x ∈ G, f'' x + v + v' = ∑ x ∈ G, f'' x + v' + v := add_right_comm ..
    _ = ∑ x ∈ G, f' x + v'' + v := by rw [hsecond]
    _ = ∑ x ∈ G, f' x + v + v'' := add_right_comm ..
    _ = ∑ x ∈ G, f x + v' + v'' := by rw [hfirst]
    _ = ∑ x ∈ G, f x + v'' + v' := add_right_comm ..

omit [IsCancelAdd M] in
/-- One claim changes, and the amount by as much. -/
theorem follows_update [DecidableEq κ] (hother : ∀ x, x ≠ o → f' x = f x)
    (hv : f' o + v = f o + v') : Follows f f' v v' := by
  refine ⟨{o}, fun G hG => ?_⟩
  have ho : o ∈ G := hG (Finset.mem_singleton_self o)
  have hrest : ∑ x ∈ G.erase o, f' x = ∑ x ∈ G.erase o, f x :=
    Finset.sum_congr rfl fun x hx => hother x (Finset.ne_of_mem_erase hx)
  calc ∑ x ∈ G, f' x + v = f' o + ∑ x ∈ G.erase o, f x + v := by
        rw [← Finset.add_sum_erase G f' ho, hrest]
    _ = f' o + v + ∑ x ∈ G.erase o, f x := add_right_comm ..
    _ = f o + v' + ∑ x ∈ G.erase o, f x := by rw [hv]
    _ = f o + ∑ x ∈ G.erase o, f x + v' := add_right_comm ..
    _ = ∑ x ∈ G, f x + v' := by rw [Finset.add_sum_erase G f ho]

omit [IsCancelAdd M] in
theorem moved_in {a a' n : M} (ha : a' = a + n) (hv : v' = v + n) : a' + v = a + v' := by
  rw [ha, hv, add_assoc, add_comm n]

omit [IsCancelAdd M] in
theorem moved_out {a a' n : M} (ha : a' + n = a) (hv : v' + n = v) : a' + v = a + v' := by
  rw [← ha, ← hv, add_comm v', add_assoc]

end Follows

/-! ### Claims and cover move together

The side condition of `Covers.update`, when both sides gain or lose `n`. -/

omit [IsOrderedCancelAddMonoid M]

variable [IsOrderedAddMonoid M] {a a' n : M}

theorem gap_in (ha : a' ≤ a + n) (hv : v + n ≤ v') : a' + v ≤ a + v' := by
  calc a' + v ≤ a + n + v := add_le_add_left ha v
    _ = a + (v + n) := by rw [add_assoc, add_comm n]
    _ ≤ a + v' := add_le_add_right hv a

theorem gap_out (ha : a' + n ≤ a) (hv : v ≤ v' + n) : a' + v ≤ a + v' := by
  calc a' + v ≤ a' + (v' + n) := add_le_add_right hv a'
    _ = a' + n + v' := by rw [add_comm v', add_assoc]
    _ ≤ a + v' := add_le_add_left ha v'

end Kit
