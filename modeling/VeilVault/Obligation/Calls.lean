/-
# VeilVault.Obligation.Calls — sequences of method calls on one obligation.

A `Call` is one method with its arguments.  Keys are `ReserveKey`s, which cannot be the default
address; amounts are whatever the method's own type allows.  `after` keeps the state a call leaves,
also when it fails, so runs of `after` include every state a caller could ever observe.

Each call makes one `Move` on each table (`after_deposits`, `after_borrows`), and can clear exactly
the slots that `EmptiesDeposit` and `EmptiesBorrow` name.
-/
import VeilVault.Obligation.Methods

namespace VeilVault

open Kit

/-- A reserve key that does not read as a free slot. -/
abbrev ReserveKey := { k : Pubkey // k ≠ default }

/-- One call of a position-keeping method. -/
inductive Call
  | deposit (reserve : ReserveKey) (amount : U64)
  | withdraw (reserve : ReserveKey) (amount : U64)
  | borrow (reserve : ReserveKey) (amount cumulativeBorrowRateSf : U128)
  | repay (reserve : ReserveKey) (amount : U128)
  | accrueInterest (slotIndex : Nat) (currentCumulativeRateSf : U128)

namespace Obligation

variable {o o' : Obligation}

def call (o : Obligation) : Call → Outcome Fault Obligation
  | .deposit k a => o.deposit k.1 a
  | .withdraw k a => o.withdraw k.1 a
  | .borrow k a c => o.borrow k.1 a c
  | .repay k a => o.repay k.1 a
  | .accrueInterest j c => o.accrueInterest j c

/-- The obligation a call leaves, whether it returned normally or not. -/
def after (o : Obligation) (c : Call) : Obligation := (o.call c).2

theorem after_of_commit {c : Call} (h : (o.call c).commit = .ok o') : o.after c = o' := by
  rw [after, Outcome.commit_eq_ok.mp h]

/-- The deposit slots a call is about to empty. -/
def EmptiesDeposit (o : Obligation) : Call → Fin maxDepositsCountInReserve → Prop
  | .withdraw k a, i => 0 < a.toNat ∧ o.deposits[i].depositReserve = k.1 ∧
      o.deposits[i].depositedAmount.toNat = a.toNat
  | _, _ => False

/-- The borrow slots a call is about to empty: less than one atomic unit would be left. -/
def EmptiesBorrow (o : Obligation) : Call → Fin maxBorrowCountInReserve → Prop
  | .repay k a, i => 0 < a.toNat ∧ o.borrows[i].borrowReserve = k.1 ∧
      a.toNat * 10 ^ 12 ≤ o.borrows[i].borrowedAmountSf.toNat ∧
      o.borrows[i].borrowedAmountSf.toNat < a.toNat * 10 ^ 12 + 10 ^ 12
  | _, _ => False

theorem toNat_count_succ {x : U8} (h : x.toNat ≤ 8) : (saturatingAdd x 1).toNat = x.toNat + 1 := by
  rw [toNat_saturatingAdd]
  have : (1 : U8).toNat = 1 := rfl
  omega

theorem toNat_count_pred (x : U8) : (saturatingSub x 1).toNat = x.toNat - 1 :=
  toNat_saturatingSub x 1

/-- A call makes one move on the deposit table. -/
theorem after_deposits (o : Obligation) (c : Call) (hc : o.depositsCount.toNat ≤ 8) :
    depositLayout.Move (o.EmptiesDeposit c) o.deposits o.depositsCount.toNat
      (o.after c).deposits (o.after c).depositsCount.toNat := by
  cases c with
  | deposit k a =>
      have hspec := deposit_spec (o := o) k.2 a
      simp only [after, call]
      generalize o.deposit k.1 a = r at hspec
      cases hspec with
      | zero ha => exact .stay
      | overflow i ha hi h => exact .stay
      | added i ha hi d hd =>
          exact .write i _ (deposit_live k.2 hi) rfl
      -- the first free slot is filled, and the count goes up with it
      | opened i ha hnew hi hfirst =>
          have h := Layout.Move.fill (L := depositLayout) (A := o.EmptiesDeposit (.deposit k a))
            (c := o.depositsCount.toNat) i
            { ObligationCollateral.init k.1 with depositedAmount := a } hi hfirst k.2 hnew
          rw [← toNat_count_succ hc] at h
          exact h
      | full ha hnew hall => exact .stay
  | withdraw k a =>
      have hspec := withdraw_spec o k.1 a
      simp only [after, call]
      generalize o.withdraw k.1 a = r at hspec
      cases hspec with
      | zero ha => exact .stay
      | missing ha hnew => exact .stay
      | tooMuch i ha hi h => exact .stay
      -- the slot is cleared where it is: this is the move that breaks the prefix
      | cleared i ha hi h =>
          have h := Layout.Move.clear (L := depositLayout) (A := o.EmptiesDeposit (.withdraw k a))
            (c := o.depositsCount.toNat) i default ⟨ha, hi, h⟩
            (deposit_live k.2 hi) depositLayout_default
          rw [← toNat_count_pred] at h
          exact h
      | reduced i ha hi left hleft h =>
          exact .write i _ (deposit_live k.2 hi) rfl
  -- the other three methods never touch the deposit table
  | borrow k a c =>
      have hspec := borrow_spec (o := o) k.2 a c
      simp only [after, call]
      generalize o.borrow k.1 a c = r at hspec
      cases hspec <;> exact .stay
  | repay k a =>
      have hspec := repay_spec o k.1 a
      simp only [after, call]
      generalize o.repay k.1 a = r at hspec
      cases hspec <;> exact .stay
  | accrueInterest j c =>
      rw [after, call]
      by_cases hj : j < maxBorrowCountInReserve
      · have hspec := accrueInterest_spec o ⟨j, hj⟩ c
        simp only at hspec
        generalize o.accrueInterest j c = r at hspec
        cases hspec <;> exact .stay
      · rw [accrueInterest_out_of_range hj]
        exact .stay

/-- A call makes one move on the borrow table. -/
theorem after_borrows (o : Obligation) (c : Call) (hc : o.borrowsCount.toNat ≤ 8) :
    borrowLayout.Move (o.EmptiesBorrow c) o.borrows o.borrowsCount.toNat
      (o.after c).borrows (o.after c).borrowsCount.toNat := by
  cases c with
  | deposit k a =>
      have hspec := deposit_spec (o := o) k.2 a
      simp only [after, call]
      generalize o.deposit k.1 a = r at hspec
      cases hspec <;> exact .stay
  | withdraw k a =>
      have hspec := withdraw_spec o k.1 a
      simp only [after, call]
      generalize o.withdraw k.1 a = r at hspec
      cases hspec <;> exact .stay
  | borrow k a c =>
      have hspec := borrow_spec (o := o) k.2 a c
      -- a slot is opened whether or not the amount fits it
      have hopen (i : Fin maxBorrowCountInReserve) (hi : ¬ borrowLayout.Live o.borrows[i])
          (hfirst : ∀ j : Fin maxBorrowCountInReserve, j < i → borrowLayout.Live o.borrows[j])
          (hnew : ∀ j : Fin maxBorrowCountInReserve, o.borrows[j].borrowReserve ≠ k.1) (d : U128) :
          borrowLayout.Move (o.EmptiesBorrow (.borrow k a c)) o.borrows o.borrowsCount.toNat
            (o.openedBorrow i k.1 c d).borrows (o.openedBorrow i k.1 c d).borrowsCount.toNat := by
        have h := Layout.Move.fill (L := borrowLayout) (A := o.EmptiesBorrow (.borrow k a c))
          (c := o.borrowsCount.toNat) i
          { ObligationLiquidity.init k.1 c with borrowedAmountSf := d } hi hfirst k.2 hnew
        rw [← toNat_count_succ hc] at h
        exact h
      simp only [after, call]
      generalize o.borrow k.1 a c = r at hspec
      cases hspec with
      | zero ha => exact .stay
      | overflow i ha hi h => exact .stay
      | added i ha hi d hd =>
          exact .write i _ (borrow_live k.2 hi) rfl
      | opened i ha hnew hi hfirst d hd => exact hopen i hi hfirst hnew d
      -- the error comes after the slot was written, which stays at zero
      | openedOverflow i ha hnew hi hfirst h => exact hopen i hi hfirst hnew 0
      | full ha hnew hall => exact .stay
  | repay k a =>
      have hspec := repay_spec o k.1 a
      simp only [after, call]
      generalize o.repay k.1 a = r at hspec
      cases hspec with
      | zero ha => exact .stay
      | missing ha hnew => exact .stay
      | tooMuch i ha hi e h => exact .stay
      | cleared i ha hi hle h =>
          have h := Layout.Move.clear (L := borrowLayout) (A := o.EmptiesBorrow (.repay k a))
            (c := o.borrowsCount.toNat) i default ⟨ha, hi, hle, h⟩
            (borrow_live k.2 hi) borrowLayout_default
          rw [← toNat_count_pred] at h
          exact h
      | reduced i ha hi left hleft h =>
          exact .write i _ (borrow_live k.2 hi) rfl
  | accrueInterest j c =>
      rw [after, call]
      by_cases hj : j < maxBorrowCountInReserve
      · have hspec := accrueInterest_spec o ⟨j, hj⟩ c
        simp only at hspec
        generalize o.accrueInterest j c = r at hspec
        cases hspec with
        | grown hi hlt hfit hpos d hd => exact .write ⟨j, hj⟩ _ hi rfl
        | _ => exact .stay
      · rw [accrueInterest_out_of_range hj]
        exact .stay

end Obligation

end VeilVault
