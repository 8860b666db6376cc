/-
# VeilVault.Private.Removals — what the removing circuits leave.

`remove_collateral_2` and `remove_borrow_2` stop at zero, and leave it to the checks on the chain
that nobody removes more than there is.  A wrong removal is not only forgotten: the position is
ahead of the additions and removals from then on.  `updates_least` says by how much, and that the
position is their net amount exactly when, at no time, more had been removed than there was.
-/
import VeilVault.Kit.Reflected
import VeilVault.Private.Sides

namespace VeilVault

open Kit

/-- One use of a circuit that changes the position. -/
inductive Update
  | add (side : Side) (amount : U64)
  | remove (side : Side) (amount : U64)
  deriving DecidableEq, Repr

namespace PrivatePosition

/-- The tokens on one side. -/
def tokens (p : PrivatePosition) : Side → U64
  | .collateral => p.collateralTokens
  | .borrow => p.borrowTokens

/-- The circuit runs on the position. -/
def update (p : PrivatePosition) : Update → PrivatePosition
  | .add .collateral amount => Circuits.addCollateralV2 amount p
  | .add .borrow amount => Circuits.addBorrowV2 amount p
  | .remove .collateral amount => Circuits.removeCollateral2 amount p
  | .remove .borrow amount => Circuits.removeBorrow2 amount p

end PrivatePosition

namespace Update

/-- What the client adds or takes on a side. -/
def delta (side : Side) : Update → ℤ
  | .add s amount => if s = side then amount.toNat else 0
  | .remove s amount => if s = side then -amount.toNat else 0

/-- What the client adds on a side. -/
def added (side : Side) : Update → ℕ
  | .add s amount => if s = side then amount.toNat else 0
  | .remove .. => 0

end Update

namespace PrivatePosition

variable {p : PrivatePosition} {side : Side} {u : Update}

/-- An update whose addition stays in its word moves either side as the counter does. -/
theorem toNat_update (h : (p.tokens side).toNat + u.added side < 2 ^ 64) :
    ((p.update u).tokens side).toNat = reflect (p.tokens side).toNat (u.delta side) := by
  -- both removing circuits take what they can
  have hsub (n a : U64) :
      (if n ≥ a then n - a else 0).toNat = reflect n.toNat (-a.toNat) := by
    by_cases hle : n ≥ a
    · have hle' : a.toNat ≤ n.toNat := BitVec.le_def.mp hle
      rw [if_pos hle, BitVec.toNat_sub_of_le hle, reflect]
      omega
    · have hlt : ¬ a.toNat ≤ n.toNat := fun h => hle (BitVec.le_def.mpr h)
      rw [if_neg hle, reflect]
      show 0 = _
      omega
  have hadd (n a : U64) (h : n.toNat + a.toNat < 2 ^ 64) :
      (n + a).toNat = reflect n.toNat a.toNat := by
    rw [BitVec.toNat_add_of_lt h, reflect]
    omega
  have hother (n : U64) : n.toNat = reflect n.toNat 0 := by
    rw [reflect]
    omega
  cases u with
  | add s a =>
      cases s <;> cases side
      · exact hadd _ _ h
      · exact hother _
      · exact hother _
      · exact hadd _ _ h
  | remove s a =>
      cases s <;> cases side
      · exact hsub _ _
      · exact hother _
      · exact hother _
      · exact hsub _ _

/-- Removals make room, so the additions alone decide whether a word overflows. -/
theorem toNat_foldl_update (us : List Update) (side : Side) : ∀ p : PrivatePosition,
    (p.tokens side).toNat + (us.map (Update.added side)).sum < 2 ^ 64 →
    ((us.foldl update p).tokens side).toNat =
      (us.map (Update.delta side)).foldl reflect (p.tokens side).toNat := by
  induction us with
  | nil => exact fun _ _ => rfl
  | cons u us ih =>
      intro p h
      rw [List.map_cons, List.sum_cons] at h
      have hfirst : (p.tokens side).toNat + u.added side < 2 ^ 64 := by omega
      have hu := toNat_update hfirst
      have hle : u.delta side ≤ u.added side := by
        cases u <;> simp only [Update.delta, Update.added] <;> split <;> omega
      have hroom : ((p.update u).tokens side).toNat + (us.map (Update.added side)).sum <
          2 ^ 64 := by
        rw [hu, reflect]
        omega
      rw [List.foldl_cons, ih _ hroom, hu, List.map_cons, List.foldl_cons]

/-- What any run of the four circuits leaves on a side: the least number that covers the net amount
from the start and the net amount of every last part of the run.  It is the net amount exactly when
no first part of the run removes more than there was. -/
theorem updates_least (p : PrivatePosition) (us : List Update) (side : Side)
    (hfits : (p.tokens side).toNat + (us.map (Update.added side)).sum < 2 ^ 64) :
    IsLeast {m : ℤ | (p.tokens side).toNat + (us.map (Update.delta side)).sum ≤ m ∧
        ∀ t, t <:+ us.map (Update.delta side) → t.sum ≤ m}
      (((us.foldl update p).tokens side).toNat : ℤ) ∧
    ((((us.foldl update p).tokens side).toNat : ℤ) =
        (p.tokens side).toNat + (us.map (Update.delta side)).sum ↔
      ∀ t, t <+: us.map (Update.delta side) → 0 ≤ ((p.tokens side).toNat : ℤ) + t.sum) := by
  rw [toNat_foldl_update us side p hfits]
  exact ⟨foldl_reflect_isLeast _ _, foldl_reflect_eq_iff _ _⟩

/-- Five tokens are removed before three are added: three remain, although the net is below zero. -/
def earlyRemoval : List Update := [.remove .collateral 5, .add .collateral 3]

theorem updates_least_early :
    IsLeast {m : ℤ | (0 : ℤ) + [-5, 3].sum ≤ m ∧ ∀ t, t <:+ [-5, 3] → t.sum ≤ m} 3 :=
  (updates_least Circuits.initPositionV2 earlyRemoval .collateral (by decide)).1

end PrivatePosition

end VeilVault
