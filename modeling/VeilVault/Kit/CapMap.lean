/-
# Kit.CapMap — finite maps to amounts, with a bound on the number of keys.

The abstract counterpart of a fixed table of accounts.  An absent key reads zero, so "remove at
zero" needs no case of its own: a map is a finitely supported function whose support has at most
`cap` keys.  `credit` and `debit` are partial, and their domains are the whole specification of
failure.
-/
import Mathlib.Data.Finsupp.Single
import Mathlib.Data.Finsupp.Basic

namespace Kit

variable {κ : Type*} {cap : ℕ}

/-- A map with at most `cap` keys. -/
structure CapMap (κ : Type*) (cap : ℕ) where
  amounts : κ →₀ ℕ
  card_le : amounts.support.card ≤ cap

namespace CapMap

@[ext]
theorem ext {m m' : CapMap κ cap} (h : m.amounts = m'.amounts) : m = m' := by
  cases m
  cases m'
  cases h
  rfl

/-- No keys at all. -/
def empty : CapMap κ cap := ⟨0, by simp⟩

theorem card_support_update_le (f : κ →₀ ℕ) (k : κ) (a : ℕ)
    (hroom : f k = 0 → a ≠ 0 → f.support.card < cap) (hcap : f.support.card ≤ cap) :
    (f.update k a).support.card ≤ cap := by
  classical
  by_cases ha : a = 0
  · subst ha
    rw [Finsupp.support_update_zero]
    exact (Finset.card_erase_le).trans hcap
  · rw [Finsupp.support_update_ne_zero f k ha]
    by_cases hk : f k = 0
    · have := Finset.card_insert_le k f.support
      have := hroom hk ha
      omega
    · rw [Finset.insert_eq_of_mem (Finsupp.mem_support_iff.mpr hk)]
      exact hcap

/-- Replace the amount at a key that is present, or make room for a new one. -/
noncomputable def write (m : CapMap κ cap) (k : κ) (a : ℕ)
    (hroom : m.amounts k = 0 → a ≠ 0 → m.amounts.support.card < cap) : CapMap κ cap :=
  ⟨m.amounts.update k a, card_support_update_le _ _ _ hroom m.card_le⟩

open Classical in
/-- Add a positive amount at `k`.  Refused when the map is full and `k` is new, or when the new
amount would reach `limit`. -/
noncomputable def credit (limit : ℕ) (m : CapMap κ cap) (k : κ) (a : ℕ) : Option (CapMap κ cap) :=
  if h : 0 < a ∧ (m.amounts k = 0 → m.amounts.support.card < cap) ∧ m.amounts k + a < limit then
    some (m.write k (m.amounts k + a) fun h0 _ => h.2.1 h0)
  else none

open Classical in
/-- Take a positive amount out of `k`, and forget the key when less than `dust` remains.  Refused
when `k` is absent or holds less than the amount. -/
noncomputable def debit (dust : ℕ) (m : CapMap κ cap) (k : κ) (a : ℕ) : Option (CapMap κ cap) :=
  if h : 0 < a ∧ m.amounts k ≠ 0 ∧ a ≤ m.amounts k then
    some (m.write k (if m.amounts k - a < dust then 0 else m.amounts k - a)
      fun h0 _ => absurd h0 h.2.1)
  else none

/-- Replace the amount at a present key. -/
noncomputable def regrade (m : CapMap κ cap) (k : κ) (a : ℕ) (hk : m.amounts k ≠ 0) :
    CapMap κ cap :=
  m.write k a fun h0 _ => absurd h0 hk

theorem credit_eq_some {limit : ℕ} {m m' : CapMap κ cap} {k : κ} {a : ℕ} :
    m.credit limit k a = some m' ↔
      (0 < a ∧ (m.amounts k = 0 → m.amounts.support.card < cap) ∧ m.amounts k + a < limit) ∧
        m'.amounts = m.amounts.update k (m.amounts k + a) := by
  unfold credit
  split
  case isTrue h =>
    rw [Option.some.injEq, CapMap.ext_iff]
    exact ⟨fun he => ⟨h, he.symm⟩, fun he => he.2.symm⟩
  case isFalse h => simp [h]

theorem credit_eq_none {limit : ℕ} {m : CapMap κ cap} {k : κ} {a : ℕ} :
    m.credit limit k a = none ↔
      a = 0 ∨ (m.amounts k = 0 ∧ m.amounts.support.card = cap) ∨ limit ≤ m.amounts k + a := by
  have := m.card_le
  unfold credit
  split
  case isTrue h =>
    simp only [reduceCtorEq, false_iff]
    rintro (h0 | ⟨hk, hc⟩ | hl)
    · omega
    · have := h.2.1 hk
      omega
    · omega
  case isFalse h =>
    simp only [true_iff]
    by_contra hcon
    push Not at hcon
    refine h ⟨by omega, fun hk => ?_, by omega⟩
    have := hcon.2.1 hk
    omega

theorem debit_eq_some {dust : ℕ} {m m' : CapMap κ cap} {k : κ} {a : ℕ} :
    m.debit dust k a = some m' ↔
      (0 < a ∧ m.amounts k ≠ 0 ∧ a ≤ m.amounts k) ∧
        m'.amounts =
          m.amounts.update k (if m.amounts k - a < dust then 0 else m.amounts k - a) := by
  unfold debit
  split
  case isTrue h =>
    rw [Option.some.injEq, CapMap.ext_iff]
    exact ⟨fun he => ⟨h, he.symm⟩, fun he => he.2.symm⟩
  case isFalse h => simp [h]

theorem debit_eq_none {dust : ℕ} {m : CapMap κ cap} {k : κ} {a : ℕ} :
    m.debit dust k a = none ↔ a = 0 ∨ m.amounts k = 0 ∨ m.amounts k < a := by
  unfold debit
  split
  case isTrue h =>
    simp only [reduceCtorEq, false_iff]
    omega
  case isFalse h =>
    simp only [true_iff]
    by_contra hcon
    exact h (by omega)

/-- A credit touches one key only. -/
theorem credit_other {limit : ℕ} {m m' : CapMap κ cap} {k k' : κ} {a : ℕ}
    (h : m.credit limit k a = some m') (hk : k' ≠ k) : m'.amounts k' = m.amounts k' := by
  classical
  rw [(credit_eq_some.mp h).2, Finsupp.update_apply, if_neg hk]

/-- A debit touches one key only. -/
theorem debit_other {dust : ℕ} {m m' : CapMap κ cap} {k k' : κ} {a : ℕ}
    (h : m.debit dust k a = some m') (hk : k' ≠ k) : m'.amounts k' = m.amounts k' := by
  classical
  rw [(debit_eq_some.mp h).2, Finsupp.update_apply, if_neg hk]

theorem regrade_amounts {m : CapMap κ cap} {k : κ} {a : ℕ} (hk : m.amounts k ≠ 0) :
    (m.regrade k a hk).amounts = m.amounts.update k a := rfl

/-- A regrade touches one key only. -/
theorem regrade_other {m : CapMap κ cap} {k k' : κ} {a : ℕ} (hk : m.amounts k ≠ 0) (h : k' ≠ k) :
    (m.regrade k a hk).amounts k' = m.amounts k' := by
  classical
  rw [regrade_amounts, Finsupp.update_apply, if_neg h]

end CapMap

end Kit
