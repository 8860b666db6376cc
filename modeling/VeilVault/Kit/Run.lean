/-
# Kit.Run — finite runs of a step function, and what holds along them.

Two step functions occur.  A total one (`σ → α → σ`) models an object whose methods are called one
after another; a fallible one (`σ → α → Except ε σ`) models transactions, where a failing step is
rolled back and is therefore no step at all.  `Always P` speaks about every state of a run,
`EachStep Q` about every step taken from the state it is taken in, `countSteps Q` counts such steps,
and `sumSteps` adds up what each step costs.  The rules turn facts about one step into facts about
runs; they are the only inductions over runs in the development.
-/
import Mathlib.Logic.Relation
import Mathlib.Tactic.Common
import VeilVault.Kit.Fallible

namespace Kit

variable {σ α ε : Type}

/-! ## Total steps -/

/-- `P` holds in the first state of the run and after each of its steps. -/
def Always (step : σ → α → σ) (P : σ → Prop) : σ → List α → Prop
  | s, [] => P s
  | s, a :: as => P s ∧ Always step P (step s a) as

/-- Each step of the run is taken in a state that allows it. -/
def EachStep (step : σ → α → σ) (Q : σ → α → Prop) : σ → List α → Prop
  | _, [] => True
  | s, a :: as => Q s a ∧ EachStep step Q (step s a) as

/-- Whether all steps of a concrete run are allowed can be computed. -/
instance decidableEachStep (step : σ → α → σ) (Q : σ → α → Prop) [∀ s a, Decidable (Q s a)] :
    (s : σ) → (as : List α) → Decidable (EachStep step Q s as)
  | _, [] => .isTrue trivial
  | s, a :: as =>
      have := decidableEachStep step Q (step s a) as
      inferInstanceAs (Decidable (Q s a ∧ EachStep step Q (step s a) as))

section Total

variable {step : σ → α → σ} {P Inv : σ → Prop} {Q : σ → α → Prop}

/-- An invariant that allowed steps keep holds along a run of allowed steps. -/
theorem always_of_eachStep (hkeep : ∀ s a, Inv s → Q s a → Inv (step s a)) :
    ∀ (as : List α) (s : σ), Inv s → EachStep step Q s as → Always step Inv s as := by
  intro as
  induction as with
  | nil => exact fun s hs _ => hs
  | cons a as ih => exact fun s hs hq => ⟨hs, ih _ (hkeep s a hs hq.1) hq.2⟩

theorem Always.imp {P' : σ → Prop} (himp : ∀ s, P s → P' s) {as : List α} {s : σ}
    (h : Always step P s as) : Always step P' s as := by
  induction as generalizing s with
  | nil => exact himp s h
  | cons a as ih => exact ⟨himp s h.1, ih h.2⟩

theorem Always.head {as : List α} {s : σ} (h : Always step P s as) : P s := by
  cases as with
  | nil => exact h
  | cons a as => exact h.1

theorem Always.foldl {as : List α} {s : σ} (h : Always step P s as) : P (as.foldl step s) := by
  induction as generalizing s with
  | nil => exact h
  | cons a as ih => exact ih h.2

theorem eachStep_of_forall (h : ∀ s a, Q s a) {as : List α} {s : σ} : EachStep step Q s as := by
  induction as generalizing s with
  | nil => trivial
  | cons a as ih => exact ⟨h s a, ih⟩

theorem EachStep.imp_mem {R : σ → α → Prop} {as : List α} {s : σ}
    (h : EachStep step Q s as) (himp : ∀ s, ∀ a ∈ as, Q s a → R s a) :
    EachStep step R s as := by
  induction as generalizing s with
  | nil => trivial
  | cons a as ih =>
      exact ⟨himp s a List.mem_cons_self h.1,
        ih h.2 fun t b hb => himp t b (List.mem_cons_of_mem a hb)⟩

theorem EachStep.and {R : σ → α → Prop} {as : List α} {s : σ} (hq : EachStep step Q s as)
    (hr : EachStep step R s as) : EachStep step (fun s a => Q s a ∧ R s a) s as := by
  induction as generalizing s with
  | nil => trivial
  | cons a as ih => exact ⟨⟨hq.1, hr.1⟩, ih hq.2 hr.2⟩

theorem EachStep.append {as bs : List α} {s : σ} (h : EachStep step Q s as)
    (h' : EachStep step Q (as.foldl step s) bs) : EachStep step Q s (as ++ bs) := by
  induction as generalizing s with
  | nil => exact h'
  | cons a as ih => exact ⟨h.1, ih h.2 h'⟩

/-- The last step is taken in the state the others lead to. -/
theorem EachStep.last {as : List α} {s : σ} {a : α} (h : EachStep step Q s (as ++ [a])) :
    Q (as.foldl step s) a := by
  induction as generalizing s with
  | nil => exact h.1
  | cons b as ih => exact ih h.2

/-- What allowed steps do from states of an invariant, each step of the run does. -/
theorem eachStep_of_eachStep {R : σ → α → Prop} (hkeep : ∀ s a, Inv s → Q s a → Inv (step s a))
    (hR : ∀ s a, Inv s → Q s a → R s a) :
    ∀ (as : List α) (s : σ), Inv s → EachStep step Q s as → EachStep step R s as := by
  intro as
  induction as with
  | nil => exact fun s _ _ => trivial
  | cons a as ih =>
      exact fun s hs hq => ⟨hR s a hs hq.1, ih _ (hkeep s a hs hq.1) hq.2⟩

/-- A run that carries more beside another run's states is that run, seen through `f`. -/
theorem eachStep_map {τ : Type} {step' : τ → α → τ} {R : τ → α → Prop} (f : σ → τ)
    (hstep : ∀ s a, f (step s a) = step' (f s) a) {as : List α} {s : σ}
    (h : EachStep step (fun s a => R (f s) a) s as) : EachStep step' R (f s) as := by
  induction as generalizing s with
  | nil => trivial
  | cons a as ih => exact ⟨h.1, hstep s a ▸ ih h.2⟩

/-- Let every step of a run meet an assumption.  When, under an invariant, the allowed steps keep it
and every other step breaks `P` at once, `P` holds along the run exactly when all its steps are
allowed. -/
theorem always_iff_eachStep_of {A : σ → α → Prop} (hP : ∀ s, Inv s → P s)
    (hkeep : ∀ s a, Inv s → A s a → Q s a → Inv (step s a))
    (hbreak : ∀ s a, Inv s → A s a → ¬ Q s a → ¬ P (step s a)) :
    ∀ (as : List α) (s : σ), Inv s → EachStep step A s as →
      (Always step P s as ↔ EachStep step Q s as) := by
  intro as
  induction as with
  | nil => exact fun s hs _ => ⟨fun _ => trivial, fun _ => hP s hs⟩
  | cons a as ih =>
      intro s hs hA
      constructor
      · rintro ⟨-, htail⟩
        have hq : Q s a := by
          by_contra hcon
          exact hbreak s a hs hA.1 hcon htail.head
        exact ⟨hq, (ih _ (hkeep s a hs hA.1 hq) hA.2).mp htail⟩
      · rintro ⟨hq, htail⟩
        exact ⟨hP s hs, (ih _ (hkeep s a hs hA.1 hq) hA.2).mpr htail⟩

/-- The same for runs of any steps. -/
theorem always_iff_eachStep (hP : ∀ s, Inv s → P s)
    (hkeep : ∀ s a, Inv s → Q s a → Inv (step s a))
    (hbreak : ∀ s a, Inv s → ¬ Q s a → ¬ P (step s a)) (as : List α) (s : σ) (hs : Inv s) :
    Always step P s as ↔ EachStep step Q s as :=
  always_iff_eachStep_of hP (fun s a hs _ => hkeep s a hs) (fun s a hs _ => hbreak s a hs) as s hs
    (eachStep_of_forall fun _ _ => trivial)

/-- An invariant of the calls in a list holds at the end of the list. -/
theorem foldl_invariant (as : List α) (s : σ) (hs : Inv s)
    (hkeep : ∀ s, ∀ a ∈ as, Inv s → Inv (step s a)) : Inv (as.foldl step s) := by
  induction as generalizing s with
  | nil => exact hs
  | cons a as ih =>
      rw [List.foldl_cons]
      exact ih _ (hkeep s a List.mem_cons_self hs) fun t b hb =>
        hkeep t b (List.mem_cons_of_mem a hb)

/-- What the steps of a run cost together. -/
def sumSteps (step : σ → α → σ) (cost : σ → α → ℕ) : σ → List α → ℕ
  | _, [] => 0
  | s, a :: as => cost s a + sumSteps step cost (step s a) as

/-- An invariant that each step weakens by its cost. -/
theorem foldl_of_sumSteps {cost : σ → α → ℕ} {Inv : ℕ → σ → Prop}
    (hkeep : ∀ n s a, Inv n s → Inv (n + cost s a) (step s a)) :
    ∀ (as : List α) (n : ℕ) (s : σ), Inv n s →
      Inv (n + sumSteps step cost s as) (as.foldl step s) := by
  intro as
  induction as with
  | nil => exact fun n s hs => hs
  | cons a as ih =>
      intro n s hs
      have hrest := ih _ _ (hkeep n s a hs)
      rw [Nat.add_assoc] at hrest
      exact hrest

/-- How many steps of a run are of the kind `Q`. -/
def countSteps (step : σ → α → σ) (Q : σ → α → Prop) [∀ s a, Decidable (Q s a)] :
    σ → List α → ℕ :=
  sumSteps step fun s a => if Q s a then 1 else 0

theorem countSteps_eq_zero [∀ s a, Decidable (Q s a)] {as : List α} {s : σ}
    (h : EachStep step (fun s a => ¬ Q s a) s as) : countSteps step Q s as = 0 := by
  induction as generalizing s with
  | nil => rfl
  | cons a as ih =>
      have hrest : sumSteps step (fun s a => if Q s a then 1 else 0) (step s a) as = 0 := ih h.2
      rw [countSteps, sumSteps, if_neg h.1, hrest]

/-- A run of allowed steps simulates the run of the same labels on an abstract machine. -/
theorem foldl_simulates {τ : Type} {abstr : τ → α → τ} {R : τ → σ → Prop}
    (hstep : ∀ t s a, R t s → Q s a → R (abstr t a) (step s a)) :
    ∀ (as : List α) (t : τ) (s : σ), R t s → EachStep step Q s as →
      R (as.foldl abstr t) (as.foldl step s) := by
  intro as
  induction as with
  | nil => exact fun t s h _ => h
  | cons a as ih => exact fun t s h hq => ih _ _ (hstep t s a h hq.1) hq.2

end Total

/-! ## Fallible steps -/

/-- A failing step is rolled back. -/
def attemptStep (step : σ → α → Except ε σ) (s : σ) (a : α) : σ :=
  match step s a with
  | .ok s' => s'
  | .error _ => s

theorem attemptStep_ok {step : σ → α → Except ε σ} {s s' : σ} {a : α} (h : step s a = .ok s') :
    attemptStep step s a = s' := by
  rw [attemptStep, h]

theorem attemptStep_invariant {step : σ → α → Except ε σ} {Inv : σ → Prop} {s : σ} {a : α}
    (hs : Inv s) (hkeep : ∀ s', step s a = .ok s' → Inv s') : Inv (attemptStep step s a) := by
  unfold attemptStep
  cases h : step s a with
  | ok s' => exact hkeep s' h
  | error e => exact hs

/-- A bounded loop: what iteration `m` turns from `P m` into `P (m + 1)` holds at the end as
`P n`. -/
theorem foldlM_range_invariant {f : σ → ℕ → Except ε σ} {P : ℕ → σ → Prop} {n : ℕ} {s s' : σ}
    (h0 : P 0 s) (hstep : ∀ m s s', m < n → P m s → f s m = .ok s' → P (m + 1) s')
    (h : (List.range n).foldlM f s = .ok s') : P n s' := by
  induction n generalizing s' with
  | zero =>
      rw [List.range_zero, List.foldlM_nil] at h
      cases h
      exact h0
  | succ n ih =>
      rw [List.range_succ, List.foldlM_append] at h
      obtain ⟨t, hmid, hlast⟩ := bind_eq_ok.mp h
      rw [List.foldlM_cons] at hlast
      obtain ⟨u, hu, hnil⟩ := bind_eq_ok.mp hlast
      rw [List.foldlM_nil, pure_eq_ok] at hnil
      rw [hnil]
      exact hstep n t u (Nat.lt_succ_self n)
        (ih (fun m s s' hm => hstep m s s' (Nat.lt_succ_of_lt hm)) hmid) hu

end Kit
