/-
# VeilVault.Private.Coverage — what the health circuit compares.

The circuit divides by `10 ^ 8` before it multiplies by the price, so it values whole adjusted
tokens and drops the fraction of one.  The file that defines it bounds every factor, and within
those bounds nothing wraps; but the amounts come from ciphertexts and the other factors from the
caller, and nothing compares any of them with its bound.
-/
import Mathlib.Algebra.Order.Ring.Nat
import VeilVault.Private.Updates

namespace VeilVault

open Kit

namespace Circuits

variable {p : PrivatePosition} {rate collateralPrice borrowPrice ltv : U64}

/-! ## Exact products -/

/-- The collateral after both basis-point factors. -/
def adjusted (p : PrivatePosition) (rate ltv : U64) : ℕ :=
  p.collateralTokens.toNat * rate.toNat * ltv.toNat

/-- No multiplication of the circuit leaves its word. -/
structure ExactCheck (p : PrivatePosition) (rate collateralPrice borrowPrice ltv : U64) : Prop where
  rateFits : p.collateralTokens.toNat * rate.toNat < 2 ^ 64
  ltvFits : adjusted p rate ltv < 2 ^ 64
  valueFits : adjusted p rate ltv / 10 ^ 8 * collateralPrice.toNat < 2 ^ 64
  debtFits : p.borrowTokens.toNat * borrowPrice.toNat < 2 ^ 64

theorem exactCheck_iff : ExactCheck p rate collateralPrice borrowPrice ltv ↔
    p.collateralTokens.toNat * rate.toNat < 2 ^ 64 ∧ adjusted p rate ltv < 2 ^ 64 ∧
      adjusted p rate ltv / 10 ^ 8 * collateralPrice.toNat < 2 ^ 64 ∧
      p.borrowTokens.toNat * borrowPrice.toNat < 2 ^ 64 :=
  ⟨fun h => ⟨h.rateFits, h.ltvFits, h.valueFits, h.debtFits⟩,
    fun ⟨hrate, hltv, hvalue, hdebt⟩ => ⟨hrate, hltv, hvalue, hdebt⟩⟩

/-- Without a wrap the circuit compares what its formula says. -/
theorem ExactCheck.checkHealthV2 (h : ExactCheck p rate collateralPrice borrowPrice ltv) :
    checkHealthV2 p rate collateralPrice borrowPrice ltv = true ↔
      p.borrowTokens.toNat * borrowPrice.toNat ≤
        adjusted p rate ltv / 10 ^ 8 * collateralPrice.toNat := by
  have hrated := BitVec.toNat_mul_of_lt h.rateFits
  have hadjusted : (p.collateralTokens * rate * ltv).toNat = adjusted p rate ltv := by
    rw [BitVec.toNat_mul_of_lt (by rw [hrated]; exact h.ltvFits), hrated]
    rfl
  have hquot : (p.collateralTokens * rate * ltv / 100000000).toNat =
      adjusted p rate ltv / 10 ^ 8 := by
    rw [BitVec.toNat_udiv, hadjusted]
    rfl
  have hvalued : (p.collateralTokens * rate * ltv / 100000000 * collateralPrice).toNat =
      adjusted p rate ltv / 10 ^ 8 * collateralPrice.toNat := by
    rw [BitVec.toNat_mul_of_lt (by rw [hquot]; exact h.valueFits), hquot]
  rw [Circuits.checkHealthV2, decide_eq_true_iff, ge_iff_le, BitVec.le_def, hvalued,
    BitVec.toNat_mul_of_lt h.debtFits]

/-! ## The documented bounds -/

/-- The bounds that the circuits' file states for every factor. -/
structure Documented (p : PrivatePosition) (rate collateralPrice borrowPrice ltv : U64) :
    Prop where
  collateralTokens : p.collateralTokens.toNat ≤ 10 ^ 9
  borrowTokens : p.borrowTokens.toNat ≤ 10 ^ 9
  rate : rate.toNat ≤ 2 * 10 ^ 4
  ltv : ltv.toNat ≤ 10 ^ 4
  collateralPrice : collateralPrice.toNat ≤ 10 ^ 6
  borrowPrice : borrowPrice.toNat ≤ 10 ^ 6

theorem Documented.exactCheck (h : Documented p rate collateralPrice borrowPrice ltv) :
    ExactCheck p rate collateralPrice borrowPrice ltv := by
  have hrated : p.collateralTokens.toNat * rate.toNat ≤ 10 ^ 9 * (2 * 10 ^ 4) :=
    Nat.mul_le_mul h.collateralTokens h.rate
  have hadjusted : adjusted p rate ltv ≤ 10 ^ 9 * (2 * 10 ^ 4) * 10 ^ 4 :=
    Nat.mul_le_mul hrated h.ltv
  have hquot : adjusted p rate ltv / 10 ^ 8 ≤ 2 * 10 ^ 9 := by omega
  have hvalued : adjusted p rate ltv / 10 ^ 8 * collateralPrice.toNat ≤ 2 * 10 ^ 9 * 10 ^ 6 :=
    Nat.mul_le_mul hquot h.collateralPrice
  have howed : p.borrowTokens.toNat * borrowPrice.toNat ≤ 10 ^ 9 * 10 ^ 6 :=
    Nat.mul_le_mul h.borrowTokens h.borrowPrice
  exact ⟨by omega, by omega, by omega, by omega⟩

/-- Dividing before the price multiplies is the exact comparison with the fraction left out. -/
theorem le_floor_mul_iff (value n price : ℕ) : value ≤ n / 10 ^ 8 * price ↔
    value * 10 ^ 8 + n % 10 ^ 8 * price ≤ n * price := by
  have hsplit : n * price = n / 10 ^ 8 * price * 10 ^ 8 + n % 10 ^ 8 * price := by
    conv_lhs => rw [← Nat.div_add_mod' n (10 ^ 8), Nat.add_mul, Nat.mul_right_comm]
  omega

/-- Within the bounds the circuit decides coverage by whole adjusted tokens: it never calls a debt
covered that is not, and is exact when no fraction is dropped. -/
theorem checkHealthV2_of_documented (h : Documented p rate collateralPrice borrowPrice ltv) :
    (checkHealthV2 p rate collateralPrice borrowPrice ltv = true ↔
      p.borrowTokens.toNat * borrowPrice.toNat * 10 ^ 8 +
          p.collateralTokens.toNat * rate.toNat * ltv.toNat % 10 ^ 8 * collateralPrice.toNat ≤
        p.collateralTokens.toNat * rate.toNat * ltv.toNat * collateralPrice.toNat) ∧
    (checkHealthV2 p rate collateralPrice borrowPrice ltv = true →
      p.borrowTokens.toNat * borrowPrice.toNat * 10 ^ 8 ≤
        p.collateralTokens.toNat * rate.toNat * ltv.toNat * collateralPrice.toNat) ∧
    (10 ^ 8 ∣ p.collateralTokens.toNat * rate.toNat * ltv.toNat →
      (checkHealthV2 p rate collateralPrice borrowPrice ltv = true ↔
        p.borrowTokens.toNat * borrowPrice.toNat * 10 ^ 8 ≤
          p.collateralTokens.toNat * rate.toNat * ltv.toNat * collateralPrice.toNat)) := by
  have hiff := h.exactCheck.checkHealthV2
  rw [le_floor_mul_iff, adjusted] at hiff
  refine ⟨hiff, fun hcheck => (Nat.le_add_right _ _).trans (hiff.mp hcheck), fun hwhole => ?_⟩
  rw [hiff, Nat.mod_eq_zero_of_dvd hwhole, Nat.zero_mul, Nat.add_zero]

/-- Two tokens at one dollar against a debt of one. -/
theorem checkHealthV2_of_documented_pair :
    checkHealthV2 ⟨2, 1⟩ 10000 100 100 5000 = true := by
  have hbounds : Documented ⟨2, 1⟩ 10000 100 100 5000 :=
    ⟨by decide, by decide, by decide, by decide, by decide, by decide⟩
  obtain ⟨-, -, hexact⟩ := checkHealthV2_of_documented hbounds
  exact (hexact (by decide)).mpr (by decide)

/-- One token of a hundred dollars, 85 of them countable, does not cover one cent. -/
theorem not_forall_checkHealthV2_exact : ¬ ∀ (p : PrivatePosition)
    (rate collateralPrice borrowPrice ltv : U64),
    Documented p rate collateralPrice borrowPrice ltv →
    (checkHealthV2 p rate collateralPrice borrowPrice ltv = true ↔
      p.borrowTokens.toNat * borrowPrice.toNat * 10 ^ 8 ≤
        p.collateralTokens.toNat * rate.toNat * ltv.toNat * collateralPrice.toNat) := by
  intro hall
  have hcovered := (hall ⟨1, 1⟩ 10000 10000 1 8500
    ⟨by decide, by decide, by decide, by decide, by decide, by decide⟩).mpr (by decide)
  exact absurd hcovered (by decide)

end Circuits

/-! ## Runs of additions -/

section Runs

variable {mxe : Mxe} {p : PrivatePosition} {op : PrivateOp}
  {rate collateralPrice borrowPrice ltv : U64}

/-- No addition of the run and no multiplication of the check after it wraps. -/
def NeverWraps (mxe : Mxe) (ops : List PrivateOp)
    (rate collateralPrice borrowPrice ltv : U64) : Prop :=
  RunsExactly mxe Circuits.initPositionV2 ops ∧
    Circuits.ExactCheck (ops.foldl (credit mxe) Circuits.initPositionV2) rate collateralPrice
      borrowPrice ltv

/-- The documented cap on the sums is enough. -/
theorem neverWraps_of_documented {ops : List PrivateOp}
    (hcollateral : collateralAdded mxe ops ≤ 10 ^ 9) (hdebt : debtAdded mxe ops ≤ 10 ^ 9)
    (hrate : rate.toNat ≤ 2 * 10 ^ 4) (hltv : ltv.toNat ≤ 10 ^ 4)
    (hcollateralPrice : collateralPrice.toNat ≤ 10 ^ 6)
    (hborrowPrice : borrowPrice.toNat ≤ 10 ^ 6) :
    NeverWraps mxe ops rate collateralPrice borrowPrice ltv := by
  have hzero : (0 : U64).toNat = 0 := rfl
  have hrun : RunsExactly mxe Circuits.initPositionV2 ops := by
    rw [runsExactly_iff]
    simp only [Circuits.initPositionV2, hzero]
    omega
  obtain ⟨hcollaterals, hdebts⟩ := hrun.position ops _
  simp only [Circuits.initPositionV2, hzero, Nat.zero_add] at hcollaterals hdebts
  have hbounds : Circuits.Documented (ops.foldl (credit mxe) Circuits.initPositionV2) rate
      collateralPrice borrowPrice ltv :=
    ⟨hcollaterals.trans_le hcollateral, hdebts.trans_le hdebt, hrate, hltv, hcollateralPrice,
      hborrowPrice⟩
  exact ⟨hrun, hbounds.exactCheck⟩

/-- After exact additions the check multiplies the sums. -/
theorem RunsExactly.exactCheck_iff {ops : List PrivateOp}
    (hrun : RunsExactly mxe Circuits.initPositionV2 ops) :
    Circuits.ExactCheck (ops.foldl (credit mxe) Circuits.initPositionV2) rate collateralPrice
        borrowPrice ltv ↔
      collateralAdded mxe ops * rate.toNat < 2 ^ 64 ∧
      collateralAdded mxe ops * rate.toNat * ltv.toNat < 2 ^ 64 ∧
      collateralAdded mxe ops * rate.toNat * ltv.toNat / 10 ^ 8 * collateralPrice.toNat < 2 ^ 64 ∧
      debtAdded mxe ops * borrowPrice.toNat < 2 ^ 64 := by
  have hstart : Circuits.initPositionV2.collateralTokens.toNat = 0 ∧
    Circuits.initPositionV2.borrowTokens.toNat = 0 := ⟨rfl, rfl⟩
  obtain ⟨hcollateral, hdebt⟩ := hrun.position ops _
  rw [hstart.1, Nat.zero_add] at hcollateral
  rw [hstart.2, Nat.zero_add] at hdebt
  rw [Circuits.exactCheck_iff, Circuits.adjusted, hcollateral, hdebt]

/-- The encrypted sums and the arguments decide. -/
theorem neverWraps_iff (mxe : Mxe) (ops : List PrivateOp)
    (rate collateralPrice borrowPrice ltv : U64) :
    NeverWraps mxe ops rate collateralPrice borrowPrice ltv ↔
      collateralAdded mxe ops < 2 ^ 64 ∧ debtAdded mxe ops < 2 ^ 64 ∧
      collateralAdded mxe ops * rate.toNat < 2 ^ 64 ∧
      collateralAdded mxe ops * rate.toNat * ltv.toNat < 2 ^ 64 ∧
      collateralAdded mxe ops * rate.toNat * ltv.toNat / 10 ^ 8 * collateralPrice.toNat < 2 ^ 64 ∧
      debtAdded mxe ops * borrowPrice.toNat < 2 ^ 64 := by
  have hstart : Circuits.initPositionV2.collateralTokens.toNat = 0 ∧
    Circuits.initPositionV2.borrowTokens.toNat = 0 := ⟨rfl, rfl⟩
  have hruns : RunsExactly mxe Circuits.initPositionV2 ops ↔
      collateralAdded mxe ops < 2 ^ 64 ∧ debtAdded mxe ops < 2 ^ 64 := by
    rw [runsExactly_iff, hstart.1, hstart.2, Nat.zero_add, Nat.zero_add]
  rw [← and_assoc, ← hruns]
  exact and_congr_right fun hrun => hrun.exactCheck_iff

/-! ## What the instructions admit -/

namespace PrivateState

variable {s : PrivateState}

/-- Every ciphertext is admitted, whatever it opens to. -/
theorem exists_exec (mxe : Mxe) (hinit : s.account.isInitialized = true) (op : PrivateOp) :
    ∃ s', s.exec mxe op = .ok s' := by
  cases op with
  | depositCollateral k a =>
      simp only [exec, privateDepositCollateral, require_pos hinit, ok_bind]
      exact ⟨_, rfl⟩
  | borrow k a =>
      simp only [exec, privateBorrow, require_pos hinit, ok_bind]
      exact ⟨_, rfl⟩
  | execute i fresh => exact ⟨_, rfl⟩
  | deliver i => exact ⟨_, rfl⟩

/-- So is every argument of a health check. -/
theorem exists_privateCheckLiquidatable (hinit : s.account.isInitialized = true)
    (rate collateralPrice borrowPrice ltv : U64) :
    ∃ s', s.privateCheckLiquidatable rate collateralPrice borrowPrice ltv = .ok s' := by
  simp only [privateCheckLiquidatable, require_pos hinit, ok_bind]
  exact ⟨_, rfl⟩

end PrivateState

/-- All of a word, and one token more. -/
def wrappingDeposits : List PrivateOp :=
  [.depositCollateral (.key 3) (plainAmount 18446744073709551615),
    .depositCollateral (.key 3) (plainAmount 1)]

/-- Both are admitted, and leave a position without collateral. -/
theorem not_forall_neverWraps : ¬ ∀ (mxe : Mxe) (s : PrivateState) (ops : List PrivateOp)
    (rate collateralPrice borrowPrice ltv : U64), s.account.isInitialized = true →
    (∀ op ∈ ops, ∃ s', s.exec mxe op = .ok s') →
    (∃ s', s.privateCheckLiquidatable rate collateralPrice borrowPrice ltv = .ok s') →
    NeverWraps mxe ops rate collateralPrice borrowPrice ltv := by
  intro hall
  have hruns := (hall plainMxe emptyPrivate wrappingDeposits 10000 100 100 8500 rfl
    (fun op _ => PrivateState.exists_exec plainMxe rfl op)
    (PrivateState.exists_privateCheckLiquidatable rfl _ _ _ _)).1
  have hsum := ((runsExactly_iff wrappingDeposits _).mp hruns).1
  exact absurd hsum (by decide)

end Runs

end VeilVault
