/-
# Kit.Footprint — steps that touch few locations.

A state has locations, and is determined by what they hold.  A step with the footprint `R`, `W`
looks at nothing outside of `R` and changes nothing outside of `W`.  Both are said at once, of two
states followed side by side (`Tandem`): if they agree on `R`, they still do after the step, and
off `W` each is as it was.  Said so, a footprint composes: a program is followed through its binds
(`Lockstep`), a compound state through its parts.

Steps whose footprints do not meet commute, and so the two runs they occur in may be interleaved in
any way (`foldl_interleaving`).
-/
import Mathlib.Data.Set.Basic
import Mathlib.Tactic.Common
import VeilVault.Kit.Run

namespace Kit

variable {α β γ δ ε σ ℓ κ : Type}

/-! ## Side by side -/

/-- Two programs fail alike, or both return, and what they return is related. -/
inductive Lockstep (r : α → β → Prop) : Except ε α → Except ε β → Prop
  | ok {a : α} {b : β} (h : r a b) : Lockstep r (.ok a) (.ok b)
  | error (e : ε) : Lockstep r (.error e) (.error e)

namespace Lockstep

variable {p : α → β → Prop} {q : γ → δ → Prop}

theorem bind {x : Except ε α} {y : Except ε β} {f : α → Except ε γ} {g : β → Except ε δ}
    (h : Lockstep p x y) (hrest : ∀ a b, p a b → Lockstep q (f a) (g b)) :
    Lockstep q (x >>= f) (y >>= g) := by
  cases h with
  | ok h => exact hrest _ _ h
  | error e => exact .error e

/-- A first part that is the same in both. -/
theorem bind_same {x y : Except ε α} {f : α → Except ε γ} {g : α → Except ε δ} (h : x = y)
    (hrest : ∀ a, Lockstep q (f a) (g a)) : Lockstep q (x >>= f) (y >>= g) := by
  subst h
  cases x with
  | ok a => exact hrest a
  | error e => exact .error e

theorem imp {q : α → β → Prop} {x : Except ε α} {y : Except ε β} (h : Lockstep p x y)
    (himp : ∀ a b, p a b → q a b) : Lockstep q x y := by
  cases h with
  | ok h => exact .ok (himp _ _ h)
  | error e => exact .error e

theorem mapError {ε' : Type} {x : Except ε α} {y : Except ε β} (h : Lockstep p x y)
    (f : ε → ε') : Lockstep p (x.mapError f) (y.mapError f) := by
  cases h with
  | ok h => exact .ok h
  | error e => exact .error (f e)

end Lockstep

/-! ## Locations -/

/-- States that are determined by what they hold at their locations. -/
class Located (σ : Type) (ℓ : outParam Type) where
  same : ℓ → σ → σ → Prop
  equivalence : ∀ l, Equivalence (same l)
  ext : ∀ s t, (∀ l, same l s t) → s = t

instance Located.function : Located (κ → α) κ where
  same k f g := f k = g k
  equivalence _ := ⟨fun _ => rfl, Eq.symm, Eq.trans⟩
  ext _ _ h := funext h

open Located (same)

section Locations

variable [Located σ ℓ] {R W R' W' : Set ℓ} {s t u s' t' : σ} {l : ℓ}

theorem same_refl (l : ℓ) (s : σ) : same l s s := (Located.equivalence l).refl s

theorem same_symm (h : same l s t) : same l t s := (Located.equivalence l).symm h

theorem same_trans (h : same l s t) (h' : same l t u) : same l s u :=
  (Located.equivalence l).trans h h'

/-- The two states hold the same at every location of `R`. -/
def SameOn (R : Set ℓ) (s t : σ) : Prop := ∀ l ∈ R, same l s t

/-- From `s` and `t` to `s'` and `t'`: in agreement on `R`, and without a change off `W`. -/
structure Tandem (R W : Set ℓ) (s t s' t' : σ) : Prop where
  agree : SameOn R s' t'
  left : ∀ l ∉ W, same l s' s
  right : ∀ l ∉ W, same l t' t

theorem SameOn.tandem (h : SameOn R s t) (W : Set ℓ) : Tandem R W s t s t :=
  ⟨h, fun l _ => same_refl l s, fun l _ => same_refl l t⟩

/-! ## Footprints -/

/-- The step looks at `R` only, and changes `W` only. -/
def Footprint (R W : Set ℓ) (f : σ → σ) : Prop :=
  ∀ s t, SameOn R s t → Tandem R W s t (f s) (f t)

theorem Footprint.frame {f : σ → σ} (hf : Footprint R W f) (hl : l ∉ W) (s : σ) :
    same l (f s) s :=
  (hf s s fun l _ => same_refl l s).left l hl

/-- A fallible step has a footprint if it can be followed; a failure changes nothing. -/
theorem footprint_attempt {step : σ → α → Except ε σ} {a : α}
    (h : ∀ s t, SameOn R s t → Lockstep (Tandem R W s t) (step s a) (step t a)) :
    Footprint R W fun s => attemptStep step s a := by
  intro s t hst
  have hstep := h s t hst
  show Tandem R W s t (attemptStep step s a) (attemptStep step t a)
  unfold attemptStep
  generalize step s a = x, step t a = y at hstep
  cases hstep with
  | ok h => exact h
  | error e => exact hst.tandem W

/-- Each step leaves alone what the other looks at. -/
theorem commute_of_footprints {f g : σ → σ} (hf : Footprint R W f) (hg : Footprint R' W' g)
    (hW : W ⊆ R) (hW' : W' ⊆ R') (hfg : ∀ l ∈ W, l ∉ R') (hgf : ∀ l ∈ W', l ∉ R) (s : σ) :
    g (f s) = f (g s) := by
  -- each step finds what it looks at as if the other had not been taken
  have hf_agree := (hf (g s) s fun l hl => hg.frame (fun hl' => hgf l hl' hl) s).agree
  have hg_agree := (hg (f s) s fun l hl => hf.frame (fun hl' => hfg l hl' hl) s).agree
  apply Located.ext
  intro l
  by_cases hl : l ∈ W
  · have hother : l ∉ W' := fun hl' => hgf l hl' (hW hl)
    have hkept : same l (g (f s)) (f s) := hg.frame hother _
    exact same_trans hkept (same_symm (hf_agree l (hW hl)))
  · by_cases hl' : l ∈ W'
    · have hkept : same l (f (g s)) (g s) := hf.frame hl _
      exact same_trans (hg_agree l (hW' hl')) (same_symm hkept)
    · have hleft : same l (g (f s)) s := same_trans (hg.frame hl' _) (hf.frame hl s)
      have hright : same l (f (g s)) s := same_trans (hf.frame hl _) (hg.frame hl' s)
      exact same_trans hleft (same_symm hright)

/-- A run changes no location that none of its steps changes. -/
theorem foldl_frame {step : σ → α → σ} {R W : α → Set ℓ}
    (hstep : ∀ a, Footprint (R a) (W a) (step · a)) {as : List α} (hl : ∀ a ∈ as, l ∉ W a)
    (s : σ) : same l (as.foldl step s) s := by
  induction as generalizing s with
  | nil => exact same_refl l s
  | cons a as ih =>
      rw [List.forall_mem_cons] at hl
      exact same_trans (ih hl.2 (step s a)) ((hstep a).frame hl.1 s)

end Locations

/-! ## Interleavings -/

/-- The third list consists of the first and the second, each in its order. -/
inductive Interleaving : List α → List α → List α → Prop
  | nil : Interleaving [] [] []
  | left {a : α} {as bs cs : List α} (h : Interleaving as bs cs) :
      Interleaving (a :: as) bs (a :: cs)
  | right {b : α} {as bs cs : List α} (h : Interleaving as bs cs) :
      Interleaving as (b :: bs) (b :: cs)

theorem Interleaving.symm {as bs cs : List α} (h : Interleaving as bs cs) :
    Interleaving bs as cs := by
  induction h with
  | nil => exact .nil
  | left _ ih => exact ih.right
  | right _ ih => exact ih.left

theorem foldl_step_comm {step : σ → α → σ} {as : List α} {b : α}
    (hcomm : ∀ a ∈ as, ∀ s, step (step s a) b = step (step s b) a) (s : σ) :
    as.foldl step (step s b) = step (as.foldl step s) b := by
  induction as generalizing s with
  | nil => rfl
  | cons a as ih =>
      rw [List.forall_mem_cons] at hcomm
      rw [List.foldl_cons, List.foldl_cons, ← hcomm.1 s, ih hcomm.2]

/-- When the steps of two runs commute with each other, every interleaving ends where the one run
after the other does. -/
theorem foldl_interleaving {step : σ → α → σ} {as bs cs : List α} (h : Interleaving as bs cs)
    (hcomm : ∀ a ∈ as, ∀ b ∈ bs, ∀ s, step (step s a) b = step (step s b) a) (s : σ) :
    cs.foldl step s = bs.foldl step (as.foldl step s) := by
  induction h generalizing s with
  | nil => rfl
  | @left a as bs cs h ih =>
      rw [List.forall_mem_cons] at hcomm
      exact ih hcomm.2 (step s a)
  | @right b as bs cs h ih =>
      have hthis : ∀ a ∈ as, ∀ s, step (step s a) b = step (step s b) a := fun a ha =>
        hcomm a ha b List.mem_cons_self
      have hrest := ih (fun a ha c hc => hcomm a ha c (List.mem_cons_of_mem b hc)) (step s b)
      rw [List.foldl_cons, List.foldl_cons, hrest, foldl_step_comm hthis]

end Kit
