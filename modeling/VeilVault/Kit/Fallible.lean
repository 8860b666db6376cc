/-
# Kit.Fallible — programs that may fail, and what they leave behind.

`Except ε` is the monad of a program whose caller discards the state on failure.  `Outcome ε σ` is
one call of an in-place method: it says what was returned *and* which state the method left, also
when it failed half way.  `Outcome.commit` is the passage from the second to the first.
-/
import Mathlib.Tactic.Cases

namespace Kit

variable {ε σ α β : Type}

/-- Continue only when `c` holds. -/
def ensure (c : Prop) [Decidable c] (e : ε) : Except ε Unit :=
  if c then .ok () else .error e

/-- Turn an absent value into a failure. -/
def orFail (o : Option α) (e : ε) : Except ε α :=
  o.elim (.error e) .ok

@[simp]
theorem ensure_eq_ok {c : Prop} [Decidable c] {e : ε} {u : Unit} :
    ensure c e = .ok u ↔ c := by
  unfold ensure
  split <;> simp_all

@[simp]
theorem orFail_eq_ok {o : Option α} {e : ε} {a : α} : orFail o e = .ok a ↔ o = some a := by
  cases o <;> simp [orFail]

@[simp]
theorem orFail_some {e : ε} {a : α} : orFail (some a) e = .ok a := rfl

@[simp]
theorem orFail_none {e : ε} : orFail (none : Option α) e = .error e := rfl

/-- A sequence succeeds exactly when its first part does and the rest does from there. -/
@[simp]
theorem bind_eq_ok {x : Except ε α} {f : α → Except ε β} {b : β} :
    (x >>= f) = .ok b ↔ ∃ a, x = .ok a ∧ f a = .ok b := by
  cases x <;> simp [bind, Except.bind]

/-- A computed check of a result is a check of its value. -/
theorem toOption_any {x : Except ε α} {p : α → Bool} :
    x.toOption.any p = true ↔ ∃ a, x = .ok a ∧ p a = true := by
  cases x <;> simp [Except.toOption]

/-- A sequence fails with the failure of its first part, or with that of the rest. -/
theorem bind_eq_error {x : Except ε α} {f : α → Except ε β} {e : ε} :
    (x >>= f) = .error e ↔ x = .error e ∨ ∃ a, x = .ok a ∧ f a = .error e := by
  cases x <;> simp [bind, Except.bind]

theorem ensure_eq_error {c : Prop} [Decidable c] {e e' : ε} :
    ensure c e = .error e' ↔ ¬ c ∧ e = e' := by
  unfold ensure
  split <;> simp_all

theorem orFail_eq_error {o : Option α} {e e' : ε} :
    orFail o e = .error e' ↔ o = none ∧ e = e' := by
  cases o <;> simp [orFail]

@[simp]
theorem pure_eq_ok {a b : α} : (pure a : Except ε α) = .ok b ↔ b = a := by
  simp [pure, Except.pure, eq_comm]

theorem ok_bind (a : α) (f : α → Except ε β) : ((.ok a : Except ε α) >>= f) = f a := rfl

/-- Two programs agree up to `g` when their first parts agree up to `f` and their rests cannot tell
values apart that `f` takes together. -/
theorem map_bind_congr {γ δ : Type} {f : α → γ} {g : β → δ} {x y : Except ε α}
    {rest rest' : α → Except ε β} (hfirst : f <$> x = f <$> y)
    (hrest : ∀ a b, f a = f b → g <$> rest a = g <$> rest' b) :
    g <$> (x >>= rest) = g <$> (y >>= rest') := by
  cases x with
  | error e =>
      cases y with
      | error e' =>
          cases hfirst
          rfl
      | ok b => cases hfirst
  | ok a =>
      cases y with
      | error e' => cases hfirst
      | ok b => exact hrest a b (Except.ok.inj hfirst)

theorem map_bind_right {δ : Type} {g : β → δ} {x : Except ε α} {rest rest' : α → Except ε β}
    (hrest : ∀ a, g <$> rest a = g <$> rest' a) : g <$> (x >>= rest) = g <$> (x >>= rest') := by
  cases x with
  | error e => rfl
  | ok a => exact hrest a

/-! ## In-place methods -/

/-- One call of an in-place method: the value it returned and the state it left. -/
abbrev Outcome (ε σ : Type) := Except ε Unit × σ

namespace Outcome

/-- The state, kept only when the method returned normally. -/
def commit (r : Outcome ε σ) : Except ε σ :=
  match r.1 with
  | .ok _ => .ok r.2
  | .error e => .error e

/-- One fallible step of a method on `s`: go on with its value, or return its error and leave
`s`. -/
def attempt (s : σ) (x : Except ε α) (f : α → Outcome ε σ) : Outcome ε σ :=
  match x with
  | .ok a => f a
  | .error e => (.error e, s)

theorem attempt_ok (s : σ) (a : α) (f : α → Outcome ε σ) : attempt s (.ok a) f = f a := rfl

theorem attempt_error (s : σ) (e : ε) (f : α → Outcome ε σ) :
    attempt s (.error e) f = (.error e, s) := rfl

theorem commit_eq_ok {r : Outcome ε σ} {s : σ} : r.commit = .ok s ↔ r = (.ok (), s) := by
  obtain ⟨res, t⟩ := r
  cases res <;> simp [commit]

theorem commit_ok (s : σ) : commit ((.ok (), s) : Outcome ε σ) = .ok s := rfl

theorem commit_attempt (s : σ) (x : Except ε α) (f : α → Outcome ε σ) :
    (attempt s x f).commit = x >>= fun a => (f a).commit := by
  cases x <;> rfl

end Outcome

end Kit
