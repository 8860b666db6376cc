/-
# Kit.Sweep — a loop that visits slots, each by itself.

A sweep goes over the first slots of a table and replaces each by what a fallible function makes of
it; the function sees the slot and nothing else of the state.  What a sweep does is then known slot
by slot: it succeeds as far as the function succeeds on the slots it visits (`sweep_ok`), it depends
on the function at those slots only (`sweep_congr`), and it repeats without effect when the function
does (`sweep_again`).
-/
import Mathlib.Tactic.Common
import VeilVault.Kit.Fallible

namespace Kit

variable {σ α ε : Type} {n m : ℕ}

/-- `n` slots inside a larger state. -/
structure Slots (σ α : Type) (n : ℕ) where
  get : σ → Fin n → α
  set : σ → Fin n → α → σ
  get_set : ∀ s i a, get (set s i a) i = a
  get_set_ne : ∀ s i j a, i ≠ j → get (set s i a) j = get s j
  set_get : ∀ s i, set s i (get s i) = s

namespace Slots

variable (t : Slots σ α n) (f g : α → Except ε α) (out : ε)

/-- Replace slot `i`; an index past the table fails. -/
def visit (s : σ) (i : ℕ) : Except ε σ :=
  if h : i < n then do
    let a ← f (t.get s ⟨i, h⟩)
    return t.set s ⟨i, h⟩ a
  else .error out

/-- Visit the first `m` slots in order. -/
def sweep (m : ℕ) (s : σ) : Except ε σ := (List.range m).foldlM (t.visit f out) s

theorem sweep_zero (s : σ) : t.sweep f out 0 s = .ok s := rfl

theorem sweep_succ (m : ℕ) (s : σ) :
    t.sweep f out (m + 1) s = t.sweep f out m s >>= fun s' => t.visit f out s' m := by
  rw [sweep, List.range_succ, List.foldlM_append]
  congr 1
  funext s'
  rw [List.foldlM_cons]
  simp only [List.foldlM_nil, bind_pure]

/-- What a sweep of `m` slots does: the visited ones are replaced, the others stay. -/
structure Swept (m : ℕ) (s s' : σ) : Prop where
  inside : m ≤ n
  done : ∀ i : Fin n, i.val < m → f (t.get s i) = .ok (t.get s' i)
  todo : ∀ i : Fin n, m ≤ i.val → t.get s' i = t.get s i

variable {t f g out} {s s' : σ}

theorem Swept.visit {s'' : σ} (h : t.Swept f m s s') (hv : t.visit f out s' m = .ok s'') :
    t.Swept f (m + 1) s s'' := by
  unfold Slots.visit at hv
  split at hv
  case isFalse => cases hv
  case isTrue hm =>
    simp only [bind_eq_ok, pure_eq_ok] at hv
    obtain ⟨a, ha, rfl⟩ := hv
    rw [h.todo ⟨m, hm⟩ (Nat.le_refl m)] at ha
    refine ⟨hm, fun i hi => ?_, fun i hi => ?_⟩
    · by_cases him : i = ⟨m, hm⟩
      · rw [him, t.get_set]
        exact ha
      · rw [t.get_set_ne _ _ _ _ (Ne.symm him)]
        apply h.done i
        have hne : i.val ≠ m := fun he => him (Fin.ext he)
        omega
    · have him : (⟨m, hm⟩ : Fin n) ≠ i := by
        intro he
        rw [← he] at hi
        exact absurd hi (Nat.not_succ_le_self m)
      rw [t.get_set_ne _ _ _ _ him]
      exact h.todo i (Nat.le_of_succ_le hi)

theorem sweep_ok (h : t.sweep f out m s = .ok s') : t.Swept f m s s' := by
  induction m generalizing s' with
  | zero =>
      cases h
      exact ⟨Nat.zero_le n, fun i hi => absurd hi (Nat.not_lt_zero _), fun _ _ => rfl⟩
  | succ m ih =>
      rw [sweep_succ] at h
      obtain ⟨s₁, h₁, hv⟩ := bind_eq_ok.mp h
      exact (ih h₁).visit hv

/-- Slots that the function leaves alone make a sweep that does nothing. -/
theorem sweep_still (hm : m ≤ n) (h : ∀ i : Fin n, i.val < m → f (t.get s i) = .ok (t.get s i)) :
    t.sweep f out m s = .ok s := by
  induction m with
  | zero => exact t.sweep_zero f out s
  | succ m ih =>
      have hlt : m < n := hm
      rw [sweep_succ, ih (Nat.le_of_succ_le hm) fun i hi => h i (Nat.lt_succ_of_lt hi), ok_bind,
        Slots.visit, dif_pos hlt, h ⟨m, hlt⟩ (Nat.lt_succ_self m), ok_bind, t.set_get]
      rfl

/-- A function that leaves its own results alone makes a sweep that finds nothing to do in any state
with the slots it left. -/
theorem sweep_again {s'' : σ} (hf : ∀ a b, f a = .ok b → f b = .ok b)
    (h : t.sweep f out m s = .ok s') (hsame : ∀ i, t.get s'' i = t.get s' i) :
    t.sweep f out m s'' = .ok s'' := by
  have hswept := sweep_ok h
  refine sweep_still hswept.inside fun i hi => ?_
  rw [hsame]
  exact hf _ _ (hswept.done i hi)

/-- What no slot is a part of stays. -/
theorem sweep_frame {β : Type} (p : σ → β) (hp : ∀ s i a, p (t.set s i a) = p s)
    (h : t.sweep f out m s = .ok s') : p s' = p s := by
  induction m generalizing s' with
  | zero =>
      cases h
      rfl
  | succ m ih =>
      rw [sweep_succ] at h
      obtain ⟨s₁, h₁, hv⟩ := bind_eq_ok.mp h
      rw [← ih h₁]
      unfold Slots.visit at hv
      split at hv
      case isTrue =>
        obtain ⟨a, -, hset⟩ := bind_eq_ok.mp hv
        rw [pure_eq_ok] at hset
        rw [hset, hp]
      case isFalse => cases hv

/-- Functions that agree on the slots to be visited make the same sweep, errors included. -/
theorem sweep_congr (h : ∀ i : Fin n, i.val < m → f (t.get s i) = g (t.get s i)) :
    t.sweep f out m s = t.sweep g out m s := by
  induction m with
  | zero => rfl
  | succ m ih =>
      rw [sweep_succ, sweep_succ, ih fun i hi => h i (Nat.lt_succ_of_lt hi)]
      cases hrun : t.sweep g out m s with
      | error e => rfl
      | ok s' =>
          rw [ok_bind, ok_bind, Slots.visit, Slots.visit]
          split
          case isTrue hm =>
            -- the slot in turn has not been written yet
            rw [(sweep_ok hrun).todo ⟨m, hm⟩ (Nat.le_refl m), h ⟨m, hm⟩ (Nat.lt_succ_self m)]
          case isFalse => rfl

end Slots

end Kit
