/-
# Kit.WholeUnits — a counter of whole units beside a finer total.

The counter is raised by the whole units of each amount that comes in, modulo its range, and is
never lowered; the total moves by the amounts themselves.  The counter is the floor of the total
as long as nothing carries, nothing wraps, and only fractions of a unit leave (`floor_iff`).
-/
import Mathlib.Data.Nat.ModEq
import Mathlib.Tactic.Common

namespace Kit

variable {unit bound held held' added removed : ℕ}

/-- One movement that a counter of whole units follows. -/
structure KeepsFloor (unit bound held added removed : ℕ) : Prop where
  carry : held % unit + added % unit < unit
  fits : held / unit + added / unit < bound
  fraction : removed ≤ held % unit

instance decidableKeepsFloor (unit bound held added removed : ℕ) :
    Decidable (KeepsFloor unit bound held added removed) :=
  decidable_of_iff (held % unit + added % unit < unit ∧ held / unit + added / unit < bound ∧
      removed ≤ held % unit)
    ⟨fun h => ⟨h.1, h.2.1, h.2.2⟩, fun h => ⟨h.carry, h.fits, h.fraction⟩⟩

/-- Taking out at most the fraction, and no more, leaves the whole units. -/
theorem sub_div_eq_iff (hunit : 0 < unit) (h : held' + removed = held) :
    held / unit = held' / unit ↔ removed ≤ held % unit := by
  have hheld := Nat.div_add_mod held unit
  constructor
  · intro hsame
    have hheld' := Nat.div_add_mod held' unit
    rw [← hsame] at hheld'
    omega
  · intro hle
    have hrest : held' = held % unit - removed + unit * (held / unit) := by omega
    have hless : held % unit - removed < unit := by
      have hmod := Nat.mod_lt held hunit
      omega
    rw [hrest, Nat.add_mul_div_left _ _ hunit, Nat.div_eq_of_lt hless, Nat.zero_add]

/-- The counter follows a movement in one direction exactly when the movement keeps the floor. -/
theorem floor_iff (hunit : 0 < unit) (hmoves : held' + removed = held + added)
    (hone : added = 0 ∨ removed = 0) (hheld : held / unit < bound) :
    (held / unit + added / unit) % bound = held' / unit ↔
      KeepsFloor unit bound held added removed := by
  rcases hone with rfl | rfl
  · rw [Nat.add_zero] at hmoves
    rw [Nat.zero_div, Nat.add_zero, Nat.mod_eq_of_lt hheld, sub_div_eq_iff hunit hmoves]
    constructor
    · intro hfraction
      refine ⟨?_, ?_, hfraction⟩
      · rw [Nat.zero_mod]
        exact Nat.mod_lt held hunit
      · rw [Nat.zero_div]
        exact hheld
    · exact KeepsFloor.fraction
  · rw [Nat.add_zero] at hmoves
    rw [hmoves]
    constructor
    · intro hsame
      have hsum : held / unit + added / unit ≤ (held + added) / unit :=
        Nat.div_add_div_le_add_div
      have hle := Nat.mod_le (held / unit + added / unit) bound
      have hlt : (held / unit + added / unit) % bound < bound :=
        Nat.mod_lt _ (Nat.zero_lt_of_lt hheld)
      refine ⟨?_, by omega, Nat.zero_le _⟩
      by_contra hcarry
      have hmore := Nat.add_div_eq_of_le_mod_add_mod (Nat.le_of_not_lt hcarry) hunit
      omega
    · intro h
      rw [Nat.mod_eq_of_lt h.fits, Nat.add_div_eq_of_add_mod_lt h.carry]

end Kit
