/-
# VeilVault.Obligation.Methods — what each obligation method can do, exactly.

For each method first the result for each way its slot lookup can end, then one inductive
predicate that lists every outcome with the condition under which it happens and the state it
leaves.  Everything later about obligations is a case analysis over these predicates and never
unfolds a method again.
-/
import VeilVault.Kit.SlotTable
import VeilVault.State.Obligation

namespace VeilVault

open Kit Kit.Outcome

/-! ## Layouts -/

/-- The deposit table reads as a map from reserves to cToken amounts. -/
def depositLayout : Layout Pubkey ObligationCollateral where
  key := (·.depositReserve)
  amount := (·.depositedAmount.toNat)
  free := default

/-- The borrow table reads as a map from reserves to scaled debts. -/
def borrowLayout : Layout Pubkey ObligationLiquidity where
  key := (·.borrowReserve)
  amount := (·.borrowedAmountSf.toNat)
  free := default

theorem depositLayout_live {c : ObligationCollateral} :
    depositLayout.Live c ↔ c.isActive = true := by
  simp [Layout.Live, depositLayout, ObligationCollateral.isActive]

theorem borrowLayout_live {b : ObligationLiquidity} :
    borrowLayout.Live b ↔ b.isActive = true := by
  simp [Layout.Live, borrowLayout, ObligationLiquidity.isActive]

theorem depositLayout_default : ¬ depositLayout.Live default := by decide

theorem borrowLayout_default : ¬ borrowLayout.Live default := by decide

namespace Obligation

variable {o o' : Obligation} {k : Pubkey}

@[simp] theorem setDeposit_deposits (i : Fin maxDepositsCountInReserve) (c : ObligationCollateral) :
    (o.setDeposit i c).deposits = o.deposits.set i c i.isLt := rfl
@[simp] theorem setDeposit_borrows (i : Fin maxDepositsCountInReserve) (c : ObligationCollateral) :
    (o.setDeposit i c).borrows = o.borrows := rfl
@[simp] theorem setDeposit_depositsCount (i : Fin maxDepositsCountInReserve)
    (c : ObligationCollateral) : (o.setDeposit i c).depositsCount = o.depositsCount := rfl
@[simp] theorem setDeposit_borrowsCount (i : Fin maxDepositsCountInReserve)
    (c : ObligationCollateral) : (o.setDeposit i c).borrowsCount = o.borrowsCount := rfl
@[simp] theorem setBorrow_borrows (i : Fin maxBorrowCountInReserve) (b : ObligationLiquidity) :
    (o.setBorrow i b).borrows = o.borrows.set i b i.isLt := rfl
@[simp] theorem setBorrow_deposits (i : Fin maxBorrowCountInReserve) (b : ObligationLiquidity) :
    (o.setBorrow i b).deposits = o.deposits := rfl
@[simp] theorem setBorrow_depositsCount (i : Fin maxBorrowCountInReserve)
    (b : ObligationLiquidity) : (o.setBorrow i b).depositsCount = o.depositsCount := rfl
@[simp] theorem setBorrow_borrowsCount (i : Fin maxBorrowCountInReserve)
    (b : ObligationLiquidity) : (o.setBorrow i b).borrowsCount = o.borrowsCount := rfl

/-- Writing back what a slot holds. -/
theorem setDeposit_self (o : Obligation) (i : Fin maxDepositsCountInReserve) :
    o.setDeposit i o.deposits[i] = o := by
  rw [setDeposit, getElem_slot, Vector.set_getElem_self]

theorem setBorrow_self (o : Obligation) (i : Fin maxBorrowCountInReserve) :
    o.setBorrow i o.borrows[i] = o := by
  rw [setBorrow, getElem_slot, Vector.set_getElem_self]

theorem setBorrow_setBorrow (o : Obligation) (i : Fin maxBorrowCountInReserve)
    (b b' : ObligationLiquidity) : (o.setBorrow i b).setBorrow i b' = o.setBorrow i b' := by
  simp only [setBorrow, Vector.set_set]

theorem deposit_live {i : Fin maxDepositsCountInReserve} (hk : k ≠ default)
    (hi : o.deposits[i].depositReserve = k) : depositLayout.Live o.deposits[i] :=
  fun h => hk (hi.symm.trans h)

theorem borrow_live {i : Fin maxBorrowCountInReserve} (hk : k ≠ default)
    (hi : o.borrows[i].borrowReserve = k) : borrowLayout.Live o.borrows[i] :=
  fun h => hk (hi.symm.trans h)

/-! ## Deposit -/

/-- The slot a first deposit of `a` opens. -/
def openedDeposit (o : Obligation) (i : Fin maxDepositsCountInReserve) (k : Pubkey) (a : U64) :
    Obligation :=
  { o.setDeposit i { ObligationCollateral.init k with depositedAmount := a } with
    depositsCount := saturatingAdd o.depositsCount 1 }

theorem openDeposit_active {i : Fin maxDepositsCountInReserve}
    (hact : o.deposits[i].isActive = true) : o.openDeposit i k = o := by
  rw [openDeposit, if_pos hact]

theorem openDeposit_inactive {i : Fin maxDepositsCountInReserve}
    (hact : o.deposits[i].isActive = false) : o.openDeposit i k = o.openedDeposit i k 0 := by
  rw [openDeposit, if_neg (by rw [hact]; exact Bool.false_ne_true)]
  rfl

theorem openedDeposit_deposits_self {i : Fin maxDepositsCountInReserve} {a : U64} :
    (o.openedDeposit i k a).deposits[i] =
      { ObligationCollateral.init k with depositedAmount := a } :=
  getElem_set_fin_self _ i _

theorem setDeposit_openedDeposit {i : Fin maxDepositsCountInReserve} {a b : U64} :
    (o.openedDeposit i k a).setDeposit i
      { (o.openedDeposit i k a).deposits[i] with depositedAmount := b } =
        o.openedDeposit i k b := by
  rw [openedDeposit_deposits_self]
  simp only [openedDeposit, setDeposit, Vector.set_set]

theorem deposit_zero {a : U64} (ha : ¬ a > 0) :
    o.deposit k a = (.error (.lending .invalidAmount), o) := by
  rw [deposit, require_neg ha, attempt_error]

theorem deposit_found {a : U64} {i : Fin maxDepositsCountInReserve} (ha : a > 0)
    (hf : o.deposits.findFinIdx? (·.depositReserve == k) = some i)
    (hact : o.deposits[i].isActive = true) :
    (2 ^ 64 ≤ o.deposits[i].depositedAmount.toNat + a.toNat ∧
      o.deposit k a = (.error (.lending .mathOverflow), o)) ∨
    ∃ d : U64, d.toNat = o.deposits[i].depositedAmount.toNat + a.toNat ∧
      o.deposit k a = (.ok (), o.setDeposit i { o.deposits[i] with depositedAmount := d }) := by
  cases hadd : checkedAdd o.deposits[i].depositedAmount a with
  | none =>
      refine .inl ⟨checkedAdd_eq_none.mp hadd, ?_⟩
      simp only [deposit, attempt_ok, attempt_error, require_pos ha, findOrAddDeposit, hf,
        openDeposit_active hact, hadd, okOr_none]
  | some d =>
      refine .inr ⟨d, checkedAdd_eq_some.mp hadd, ?_⟩
      simp only [deposit, attempt_ok, require_pos ha, findOrAddDeposit, hf, openDeposit_active hact,
        hadd, okOr_some]

theorem deposit_fresh {a : U64} {i : Fin maxDepositsCountInReserve} (ha : a > 0)
    (hf : o.deposits.findFinIdx? (·.depositReserve == k) = none)
    (hq : o.deposits.findFinIdx? (!·.isActive) = some i)
    (hact : o.deposits[i].isActive = false) :
    o.deposit k a = (.ok (), o.openedDeposit i k a) := by
  have hadd : checkedAdd (o.openedDeposit i k 0).deposits[i].depositedAmount a = some a := by
    rw [checkedAdd_eq_some, openedDeposit_deposits_self]
    exact (Nat.zero_add _).symm
  simp only [deposit, attempt_ok, require_pos ha, findOrAddDeposit, hf, hq, okOr_some,
    openDeposit_inactive hact, hadd, setDeposit_openedDeposit]

theorem deposit_full {a : U64} (ha : a > 0)
    (hf : o.deposits.findFinIdx? (·.depositReserve == k) = none)
    (hq : o.deposits.findFinIdx? (!·.isActive) = none) :
    o.deposit k a = (.error (.lending .obligationDepositsFull), o) := by
  simp only [deposit, attempt_ok, attempt_error, require_pos ha, findOrAddDeposit, hf, hq,
    okOr_none]

/-- Every way a deposit can end. -/
inductive DepositSpec (o : Obligation) (k : Pubkey) (a : U64) : Outcome Fault Obligation → Prop
  | zero (ha : a.toNat = 0) : DepositSpec o k a (.error (.lending .invalidAmount), o)
  | overflow (i : Fin maxDepositsCountInReserve) (ha : 0 < a.toNat)
      (hi : o.deposits[i].depositReserve = k)
      (h : 2 ^ 64 ≤ o.deposits[i].depositedAmount.toNat + a.toNat) :
      DepositSpec o k a (.error (.lending .mathOverflow), o)
  | added (i : Fin maxDepositsCountInReserve) (ha : 0 < a.toNat)
      (hi : o.deposits[i].depositReserve = k) (d : U64)
      (hd : d.toNat = o.deposits[i].depositedAmount.toNat + a.toNat) :
      DepositSpec o k a (.ok (), o.setDeposit i { o.deposits[i] with depositedAmount := d })
  | opened (i : Fin maxDepositsCountInReserve) (ha : 0 < a.toNat)
      (hnew : ∀ j : Fin maxDepositsCountInReserve, o.deposits[j].depositReserve ≠ k)
      (hi : ¬ depositLayout.Live o.deposits[i])
      (hfirst : ∀ j : Fin maxDepositsCountInReserve, j < i → depositLayout.Live o.deposits[j]) :
      DepositSpec o k a (.ok (), o.openedDeposit i k a)
  | full (ha : 0 < a.toNat)
      (hnew : ∀ j : Fin maxDepositsCountInReserve, o.deposits[j].depositReserve ≠ k)
      (hall : ∀ j : Fin maxDepositsCountInReserve, depositLayout.Live o.deposits[j]) :
      DepositSpec o k a (.error (.lending .obligationDepositsFull), o)

theorem deposit_spec (hk : k ≠ default) (a : U64) : DepositSpec o k a (o.deposit k a) := by
  by_cases ha : a > 0
  · have hpos : 0 < a.toNat := BitVec.lt_def.mp ha
    rcases depositLayout.lookup_cases o.deposits k with ⟨i, hf, hi⟩ | ⟨hf, hnew⟩
    · have hact : o.deposits[i].isActive = true :=
        depositLayout_live.mp (deposit_live hk hi)
      rcases deposit_found ha hf hact with ⟨hbig, he⟩ | ⟨d, hd, he⟩ <;> rw [he]
      · exact .overflow i hpos hi hbig
      · exact .added i hpos hi d hd
    · rcases depositLayout.free_cases o.deposits with ⟨i, hq, hi, hfirst⟩ | ⟨hq, hall⟩
      · rw [deposit_fresh ha hf hq (Bool.eq_false_iff.mpr (depositLayout_live.not.mp hi))]
        exact .opened i hpos hnew hi hfirst
      · rw [deposit_full ha hf hq]
        exact .full hpos hnew hall
  · rw [deposit_zero ha]
    exact .zero (Nat.eq_zero_of_not_pos fun h => ha (BitVec.lt_def.mpr h))

/-! ## Withdraw -/

theorem withdraw_zero {a : U64} (ha : ¬ a > 0) :
    o.withdraw k a = (.error (.lending .invalidAmount), o) := by
  rw [withdraw, require_neg ha, attempt_error]

theorem withdraw_missing {a : U64} (ha : a > 0)
    (hf : o.deposits.findFinIdx? (·.depositReserve == k) = none) :
    o.withdraw k a = (.error (.lending .depositNotFound), o) := by
  simp only [withdraw, attempt_ok, attempt_error, require_pos ha, findDeposit, hf, okOr_none]

theorem withdraw_found {a : U64} {i : Fin maxDepositsCountInReserve} (ha : a > 0)
    (hf : o.deposits.findFinIdx? (·.depositReserve == k) = some i) :
    (o.deposits[i].depositedAmount.toNat < a.toNat ∧
      o.withdraw k a = (.error (.lending .insufficientCollateral), o)) ∨
    ∃ left : U64, left.toNat + a.toNat = o.deposits[i].depositedAmount.toNat ∧
      o.withdraw k a = (.ok (), o.settleDeposit i left) := by
  by_cases hle : a ≤ o.deposits[i].depositedAmount
  · right
    cases hsub : checkedSub o.deposits[i].depositedAmount a with
    | none => exact absurd (checkedSub_eq_none.mp hsub) (Nat.not_lt.mpr (BitVec.le_def.mp hle))
    | some d =>
        refine ⟨d, checkedSub_eq_some.mp hsub, ?_⟩
        simp only [withdraw, attempt_ok, require_pos ha, findDeposit, hf, okOr_some,
          require_pos hle, hsub]
  · left
    refine ⟨Nat.lt_of_not_le (BitVec.le_def.not.mp hle), ?_⟩
    simp only [withdraw, attempt_ok, attempt_error, require_pos ha, findDeposit, hf, okOr_some,
      require_neg hle]

/-- A deposit slot made free. -/
def clearedDeposit (o : Obligation) (i : Fin maxDepositsCountInReserve) : Obligation :=
  { o.setDeposit i default with depositsCount := saturatingSub o.depositsCount 1 }

/-- Every way a withdrawal can end. -/
inductive WithdrawSpec (o : Obligation) (k : Pubkey) (a : U64) : Outcome Fault Obligation → Prop
  | zero (ha : a.toNat = 0) : WithdrawSpec o k a (.error (.lending .invalidAmount), o)
  | missing (ha : 0 < a.toNat)
      (hnew : ∀ j : Fin maxDepositsCountInReserve, o.deposits[j].depositReserve ≠ k) :
      WithdrawSpec o k a (.error (.lending .depositNotFound), o)
  | tooMuch (i : Fin maxDepositsCountInReserve) (ha : 0 < a.toNat)
      (hi : o.deposits[i].depositReserve = k)
      (h : o.deposits[i].depositedAmount.toNat < a.toNat) :
      WithdrawSpec o k a (.error (.lending .insufficientCollateral), o)
  | cleared (i : Fin maxDepositsCountInReserve) (ha : 0 < a.toNat)
      (hi : o.deposits[i].depositReserve = k)
      (h : o.deposits[i].depositedAmount.toNat = a.toNat) :
      WithdrawSpec o k a (.ok (), o.clearedDeposit i)
  | reduced (i : Fin maxDepositsCountInReserve) (ha : 0 < a.toNat)
      (hi : o.deposits[i].depositReserve = k) (left : U64) (hleft : 0 < left.toNat)
      (h : left.toNat + a.toNat = o.deposits[i].depositedAmount.toNat) :
      WithdrawSpec o k a (.ok (), o.setDeposit i { o.deposits[i] with depositedAmount := left })

theorem withdraw_spec (o : Obligation) (k : Pubkey) (a : U64) :
    WithdrawSpec o k a (o.withdraw k a) := by
  by_cases ha : a > 0
  · have hpos : 0 < a.toNat := BitVec.lt_def.mp ha
    rcases depositLayout.lookup_cases o.deposits k with ⟨i, hf, hi⟩ | ⟨hf, hnew⟩
    · rcases withdraw_found ha hf with ⟨hlt, he⟩ | ⟨left, hleft, he⟩ <;> rw [he]
      · exact .tooMuch i hpos hi hlt
      · by_cases hz : left = 0
        · rw [settleDeposit, if_pos hz]
          refine .cleared i hpos hi ?_
          rw [← hleft, hz]
          exact Nat.zero_add _
        · rw [settleDeposit, if_neg hz]
          exact .reduced i hpos hi left (ne_zero_iff_toNat_pos.mpr hz) hleft
    · rw [withdraw_missing ha hf]
      exact .missing hpos hnew
  · rw [withdraw_zero ha]
    exact .zero (Nat.eq_zero_of_not_pos fun h => ha (BitVec.lt_def.mpr h))

/-! ## Borrow -/

/-- The slot a first borrow of `amountSf` opens at index `c`. -/
def openedBorrow (o : Obligation) (i : Fin maxBorrowCountInReserve) (k : Pubkey)
    (c amountSf : U128) : Obligation :=
  { o.setBorrow i { ObligationLiquidity.init k c with borrowedAmountSf := amountSf } with
    borrowsCount := saturatingAdd o.borrowsCount 1 }

theorem openBorrow_active {i : Fin maxBorrowCountInReserve} {c : U128}
    (hact : o.borrows[i].isActive = true) : o.openBorrow i k c = o := by
  rw [openBorrow, if_pos hact]

theorem openBorrow_inactive {i : Fin maxBorrowCountInReserve} {c : U128}
    (hact : o.borrows[i].isActive = false) : o.openBorrow i k c = o.openedBorrow i k c 0 := by
  rw [openBorrow, if_neg (by rw [hact]; exact Bool.false_ne_true)]
  rfl

theorem openedBorrow_borrows_self {i : Fin maxBorrowCountInReserve} {c a : U128} :
    (o.openedBorrow i k c a).borrows[i] =
      { ObligationLiquidity.init k c with borrowedAmountSf := a } :=
  getElem_set_fin_self _ i _

theorem setBorrow_openedBorrow {i : Fin maxBorrowCountInReserve} {c a b : U128} :
    (o.openedBorrow i k c a).setBorrow i
      { (o.openedBorrow i k c a).borrows[i] with borrowedAmountSf := b } =
        o.openedBorrow i k c b := by
  rw [openedBorrow_borrows_self]
  simp only [openedBorrow, setBorrow, Vector.set_set]

/-- Scaling an amount fails only when the scaled amount does not fit. -/
theorem scale_cases (a : U128) :
    (2 ^ 128 ≤ a.toNat * 10 ^ 12 ∧ checkedMul a rateScale = none) ∨
      ∃ m : U128, m.toNat = a.toNat * 10 ^ 12 ∧ checkedMul a rateScale = some m := by
  cases hmul : checkedMul a rateScale with
  | none =>
      have h := checkedMul_eq_none.mp hmul
      rw [toNat_rateScale] at h
      exact .inl ⟨h, rfl⟩
  | some m =>
      have h := checkedMul_eq_some.mp hmul
      rw [toNat_rateScale] at h
      exact .inr ⟨m, h, rfl⟩

theorem borrow_zero {a c : U128} (ha : ¬ a > 0) :
    o.borrow k a c = (.error (.lending .invalidAmount), o) := by
  rw [borrow, require_neg ha, attempt_error]

theorem borrow_full {a c : U128} (ha : a > 0)
    (hf : o.borrows.findFinIdx? (·.borrowReserve == k) = none)
    (hq : o.borrows.findFinIdx? (!·.isActive) = none) :
    o.borrow k a c = (.error (.lending .obligationBorrowsFull), o) := by
  simp only [borrow, attempt_ok, attempt_error, require_pos ha, findOrAddBorrow, hf, hq, okOr_none]

theorem borrow_found {a c : U128} {i : Fin maxBorrowCountInReserve} (ha : a > 0)
    (hf : o.borrows.findFinIdx? (·.borrowReserve == k) = some i)
    (hact : o.borrows[i].isActive = true) :
    (2 ^ 128 ≤ o.borrows[i].borrowedAmountSf.toNat + a.toNat * 10 ^ 12 ∧
      o.borrow k a c = (.error (.lending .mathOverflow), o)) ∨
    ∃ d : U128, d.toNat = o.borrows[i].borrowedAmountSf.toNat + a.toNat * 10 ^ 12 ∧
      o.borrow k a c = (.ok (), o.setBorrow i { o.borrows[i] with borrowedAmountSf := d }) := by
  rcases scale_cases a with ⟨hbig, hmul⟩ | ⟨m, hm, hmul⟩
  · refine .inl ⟨Nat.le_add_left_of_le hbig, ?_⟩
    simp only [borrow, attempt_ok, attempt_error, require_pos ha, findOrAddBorrow, hf, hmul,
      openBorrow_active hact, okOr_none]
  · cases hadd : checkedAdd o.borrows[i].borrowedAmountSf m with
    | none =>
        refine .inl ⟨by rw [← hm]; exact checkedAdd_eq_none.mp hadd, ?_⟩
        simp only [borrow, attempt_ok, attempt_error, require_pos ha, findOrAddBorrow, hf, hmul,
          openBorrow_active hact, okOr_some, hadd, okOr_none]
    | some d =>
        refine .inr ⟨d, by rw [← hm]; exact checkedAdd_eq_some.mp hadd, ?_⟩
        simp only [borrow, attempt_ok, require_pos ha, findOrAddBorrow, hf, hmul,
          openBorrow_active hact, okOr_some, hadd]

theorem borrow_fresh {a c : U128} {i : Fin maxBorrowCountInReserve} (ha : a > 0)
    (hf : o.borrows.findFinIdx? (·.borrowReserve == k) = none)
    (hq : o.borrows.findFinIdx? (!·.isActive) = some i)
    (hact : o.borrows[i].isActive = false) :
    (2 ^ 128 ≤ a.toNat * 10 ^ 12 ∧
      o.borrow k a c = (.error (.lending .mathOverflow), o.openedBorrow i k c 0)) ∨
    ∃ d : U128, d.toNat = a.toNat * 10 ^ 12 ∧
      o.borrow k a c = (.ok (), o.openedBorrow i k c d) := by
  rcases scale_cases a with ⟨hbig, hmul⟩ | ⟨m, hm, hmul⟩
  · refine .inl ⟨hbig, ?_⟩
    simp only [borrow, attempt_ok, attempt_error, require_pos ha, findOrAddBorrow, hf, hq, hmul,
      openBorrow_inactive hact, okOr_some, okOr_none]
  · have hadd : checkedAdd (o.openedBorrow i k c 0).borrows[i].borrowedAmountSf m = some m := by
      rw [checkedAdd_eq_some, openedBorrow_borrows_self]
      exact (Nat.zero_add _).symm
    refine .inr ⟨m, hm, ?_⟩
    simp only [borrow, attempt_ok, require_pos ha, findOrAddBorrow, hf, hq, hmul,
      openBorrow_inactive hact, okOr_some, hadd, setBorrow_openedBorrow]

/-- Every way a borrow can end.  `openedOverflow` is the one error that changes the obligation. -/
inductive BorrowSpec (o : Obligation) (k : Pubkey) (a c : U128) : Outcome Fault Obligation → Prop
  | zero (ha : a.toNat = 0) : BorrowSpec o k a c (.error (.lending .invalidAmount), o)
  | overflow (i : Fin maxBorrowCountInReserve) (ha : 0 < a.toNat)
      (hi : o.borrows[i].borrowReserve = k)
      (h : 2 ^ 128 ≤ o.borrows[i].borrowedAmountSf.toNat + a.toNat * 10 ^ 12) :
      BorrowSpec o k a c (.error (.lending .mathOverflow), o)
  | added (i : Fin maxBorrowCountInReserve) (ha : 0 < a.toNat)
      (hi : o.borrows[i].borrowReserve = k) (d : U128)
      (hd : d.toNat = o.borrows[i].borrowedAmountSf.toNat + a.toNat * 10 ^ 12) :
      BorrowSpec o k a c (.ok (), o.setBorrow i { o.borrows[i] with borrowedAmountSf := d })
  | opened (i : Fin maxBorrowCountInReserve) (ha : 0 < a.toNat)
      (hnew : ∀ j : Fin maxBorrowCountInReserve, o.borrows[j].borrowReserve ≠ k)
      (hi : ¬ borrowLayout.Live o.borrows[i])
      (hfirst : ∀ j : Fin maxBorrowCountInReserve, j < i → borrowLayout.Live o.borrows[j])
      (d : U128) (hd : d.toNat = a.toNat * 10 ^ 12) :
      BorrowSpec o k a c (.ok (), o.openedBorrow i k c d)
  | openedOverflow (i : Fin maxBorrowCountInReserve) (ha : 0 < a.toNat)
      (hnew : ∀ j : Fin maxBorrowCountInReserve, o.borrows[j].borrowReserve ≠ k)
      (hi : ¬ borrowLayout.Live o.borrows[i])
      (hfirst : ∀ j : Fin maxBorrowCountInReserve, j < i → borrowLayout.Live o.borrows[j])
      (h : 2 ^ 128 ≤ a.toNat * 10 ^ 12) :
      BorrowSpec o k a c (.error (.lending .mathOverflow), o.openedBorrow i k c 0)
  | full (ha : 0 < a.toNat)
      (hnew : ∀ j : Fin maxBorrowCountInReserve, o.borrows[j].borrowReserve ≠ k)
      (hall : ∀ j : Fin maxBorrowCountInReserve, borrowLayout.Live o.borrows[j]) :
      BorrowSpec o k a c (.error (.lending .obligationBorrowsFull), o)

theorem borrow_spec (hk : k ≠ default) (a c : U128) : BorrowSpec o k a c (o.borrow k a c) := by
  by_cases ha : a > 0
  · have hpos : 0 < a.toNat := BitVec.lt_def.mp ha
    rcases borrowLayout.lookup_cases o.borrows k with ⟨i, hf, hi⟩ | ⟨hf, hnew⟩
    · have hact : o.borrows[i].isActive = true :=
        borrowLayout_live.mp (borrow_live hk hi)
      rcases borrow_found (c := c) ha hf hact with ⟨hbig, he⟩ | ⟨d, hd, he⟩ <;> rw [he]
      · exact .overflow i hpos hi hbig
      · exact .added i hpos hi d hd
    · rcases borrowLayout.free_cases o.borrows with ⟨i, hq, hi, hfirst⟩ | ⟨hq, hall⟩
      · have hact := Bool.eq_false_iff.mpr (borrowLayout_live.not.mp hi)
        rcases borrow_fresh (c := c) ha hf hq hact with ⟨hbig, he⟩ | ⟨d, hd, he⟩ <;> rw [he]
        · exact .openedOverflow i hpos hnew hi hfirst hbig
        · exact .opened i hpos hnew hi hfirst d hd
      · rw [borrow_full ha hf hq]
        exact .full hpos hnew hall
  · rw [borrow_zero ha]
    exact .zero (Nat.eq_zero_of_not_pos fun h => ha (BitVec.lt_def.mpr h))

/-! ## Repay -/

theorem repay_zero {a : U128} (ha : ¬ a > 0) :
    o.repay k a = (.error (.lending .invalidAmount), o) := by
  rw [repay, require_neg ha, attempt_error]

theorem repay_missing {a : U128} (ha : a > 0)
    (hf : o.borrows.findFinIdx? (·.borrowReserve == k) = none) :
    o.repay k a = (.error (.lending .borrowNotFound), o) := by
  simp only [repay, attempt_ok, attempt_error, require_pos ha, findBorrow, hf, okOr_none]

theorem repay_found {a : U128} {i : Fin maxBorrowCountInReserve} (ha : a > 0)
    (hf : o.borrows.findFinIdx? (·.borrowReserve == k) = some i) :
    (o.borrows[i].borrowedAmountSf.toNat < a.toNat * 10 ^ 12 ∧
      ∃ e, o.repay k a = (.error e, o)) ∨
    ∃ left : U128, left.toNat + a.toNat * 10 ^ 12 = o.borrows[i].borrowedAmountSf.toNat ∧
      o.repay k a = (.ok (), o.settleBorrow i left) := by
  rcases scale_cases a with ⟨hbig, hmul⟩ | ⟨m, hm, hmul⟩
  · refine .inl ⟨Nat.lt_of_lt_of_le o.borrows[i].borrowedAmountSf.isLt hbig,
      .lending .mathOverflow, ?_⟩
    simp only [repay, attempt_ok, attempt_error, require_pos ha, findBorrow, hf, okOr_some, hmul,
      okOr_none]
  · rw [← hm]
    by_cases hle : m ≤ o.borrows[i].borrowedAmountSf
    · right
      cases hsub : checkedSub o.borrows[i].borrowedAmountSf m with
      | none => exact absurd (checkedSub_eq_none.mp hsub) (Nat.not_lt.mpr (BitVec.le_def.mp hle))
      | some d =>
          refine ⟨d, checkedSub_eq_some.mp hsub, ?_⟩
          simp only [repay, attempt_ok, require_pos ha, findBorrow, hf, okOr_some, hmul,
            require_pos hle, hsub]
    · left
      refine ⟨Nat.lt_of_not_le (BitVec.le_def.not.mp hle), .lending .invalidAmount, ?_⟩
      simp only [repay, attempt_ok, attempt_error, require_pos ha, findBorrow, hf, okOr_some, hmul,
        require_neg hle]

/-- A borrow slot made free. -/
def clearedBorrow (o : Obligation) (i : Fin maxBorrowCountInReserve) : Obligation :=
  { o.setBorrow i default with borrowsCount := saturatingSub o.borrowsCount 1 }

/-- Every way a repayment can end. -/
inductive RepaySpec (o : Obligation) (k : Pubkey) (a : U128) : Outcome Fault Obligation → Prop
  | zero (ha : a.toNat = 0) : RepaySpec o k a (.error (.lending .invalidAmount), o)
  | missing (ha : 0 < a.toNat)
      (hnew : ∀ j : Fin maxBorrowCountInReserve, o.borrows[j].borrowReserve ≠ k) :
      RepaySpec o k a (.error (.lending .borrowNotFound), o)
  | tooMuch (i : Fin maxBorrowCountInReserve) (ha : 0 < a.toNat)
      (hi : o.borrows[i].borrowReserve = k) (e : Fault)
      (h : o.borrows[i].borrowedAmountSf.toNat < a.toNat * 10 ^ 12) :
      RepaySpec o k a (.error e, o)
  | cleared (i : Fin maxBorrowCountInReserve) (ha : 0 < a.toNat)
      (hi : o.borrows[i].borrowReserve = k)
      (hle : a.toNat * 10 ^ 12 ≤ o.borrows[i].borrowedAmountSf.toNat)
      (h : o.borrows[i].borrowedAmountSf.toNat < a.toNat * 10 ^ 12 + 10 ^ 12) :
      RepaySpec o k a (.ok (), o.clearedBorrow i)
  | reduced (i : Fin maxBorrowCountInReserve) (ha : 0 < a.toNat)
      (hi : o.borrows[i].borrowReserve = k) (left : U128) (hleft : 10 ^ 12 ≤ left.toNat)
      (h : left.toNat + a.toNat * 10 ^ 12 = o.borrows[i].borrowedAmountSf.toNat) :
      RepaySpec o k a (.ok (), o.setBorrow i { o.borrows[i] with borrowedAmountSf := left })

theorem lt_rateScale {x : U128} : x < rateScale ↔ x.toNat < 10 ^ 12 := by
  rw [BitVec.lt_def, toNat_rateScale]

theorem repay_spec (o : Obligation) (k : Pubkey) (a : U128) : RepaySpec o k a (o.repay k a) := by
  by_cases ha : a > 0
  · have hpos : 0 < a.toNat := BitVec.lt_def.mp ha
    rcases borrowLayout.lookup_cases o.borrows k with ⟨i, hf, hi⟩ | ⟨hf, hnew⟩
    · rcases repay_found ha hf with ⟨hlt, e, he⟩ | ⟨left, hleft, he⟩ <;> rw [he]
      · exact .tooMuch i hpos hi e hlt
      · by_cases hdust : left < rateScale
        · rw [settleBorrow, if_pos hdust]
          have := lt_rateScale.mp hdust
          exact .cleared i hpos hi (by omega) (by omega)
        · rw [settleBorrow, if_neg hdust]
          have := lt_rateScale.not.mp hdust
          exact .reduced i hpos hi left (Nat.le_of_not_lt this) hleft
    · rw [repay_missing ha hf]
      exact .missing hpos hnew
  · rw [repay_zero ha]
    exact .zero (Nat.eq_zero_of_not_pos fun h => ha (BitVec.lt_def.mpr h))

/-! ## Accrual -/

/-- A slot grown from its own index to `c`. -/
def grownBorrow (o : Obligation) (i : Fin maxBorrowCountInReserve) (c d : U128) : Obligation :=
  o.setBorrow i { o.borrows[i] with borrowedAmountSf := d, cumulativeBorrowRateSf := c }

theorem accrueInterest_out_of_range {j : Nat} {c : U128} (hj : ¬ j < maxBorrowCountInReserve) :
    o.accrueInterest j c = (.error .abort, o) := by
  rw [accrueInterest, dif_neg hj]

theorem accrueInterest_inactive {i : Fin maxBorrowCountInReserve} {c : U128}
    (hact : o.borrows[i].isActive = false) : o.accrueInterest i c = (.ok (), o) := by
  rw [accrueInterest, dif_pos i.isLt]
  exact if_pos hact

/-- Every way an accrual of an existing slot can end. -/
inductive AccrueSpec (o : Obligation) (i : Fin maxBorrowCountInReserve) (c : U128) :
    Outcome Fault Obligation → Prop
  | inactive (hi : ¬ borrowLayout.Live o.borrows[i]) : AccrueSpec o i c (.ok (), o)
  | decreased (hi : borrowLayout.Live o.borrows[i])
      (h : c.toNat < o.borrows[i].cumulativeBorrowRateSf.toNat) :
      AccrueSpec o i c (.error (.lending .borrowRateDecreased), o)
  | same (hi : borrowLayout.Live o.borrows[i]) (h : c = o.borrows[i].cumulativeBorrowRateSf) :
      AccrueSpec o i c (.ok (), o)
  | overflow (hi : borrowLayout.Live o.borrows[i])
      (hlt : o.borrows[i].cumulativeBorrowRateSf.toNat < c.toNat)
      (h : 2 ^ 128 ≤ o.borrows[i].borrowedAmountSf.toNat * c.toNat ∨
        o.borrows[i].cumulativeBorrowRateSf.toNat = 0) :
      AccrueSpec o i c (.error (.lending .mathOverflow), o)
  | grown (hi : borrowLayout.Live o.borrows[i])
      (hlt : o.borrows[i].cumulativeBorrowRateSf.toNat < c.toNat)
      (hfit : o.borrows[i].borrowedAmountSf.toNat * c.toNat < 2 ^ 128)
      (hpos : 0 < o.borrows[i].cumulativeBorrowRateSf.toNat) (d : U128)
      (hd : d.toNat = o.borrows[i].borrowedAmountSf.toNat * c.toNat /
        o.borrows[i].cumulativeBorrowRateSf.toNat) :
      AccrueSpec o i c (.ok (), o.grownBorrow i c d)

theorem accrueInterest_spec (o : Obligation) (i : Fin maxBorrowCountInReserve) (c : U128) :
    AccrueSpec o i c (o.accrueInterest i c) := by
  by_cases hi : borrowLayout.Live o.borrows[i]
  · have hlive : ¬ o.borrows[i].isActive = false := by
      rw [borrowLayout_live.mp hi]
      decide
    -- in the order of the source: active, not lower, not the same, then the two operations
    by_cases hge : c ≥ o.borrows[i].cumulativeBorrowRateSf
    · have hle := BitVec.le_def.mp hge
      by_cases heq : c = o.borrows[i].cumulativeBorrowRateSf
      · simp only [accrueInterest, attempt_ok, dif_pos i.isLt, Fin.eta, if_neg hlive,
          require_pos hge, if_pos heq]
        exact .same hi heq
      · have hlt : o.borrows[i].cumulativeBorrowRateSf.toNat < c.toNat :=
          Nat.lt_of_le_of_ne hle fun h => heq (BitVec.toNat_inj.mp h).symm
        cases hmul : checkedMul o.borrows[i].borrowedAmountSf c with
        | none =>
            simp only [accrueInterest, attempt_ok, attempt_error, dif_pos i.isLt, Fin.eta,
              if_neg hlive, require_pos hge, if_neg heq, hmul, Option.bind_eq_bind,
              Option.bind_none, okOr_none]
            exact .overflow hi hlt (.inl (checkedMul_eq_none.mp hmul))
        | some m =>
            have hm := checkedMul_eq_some.mp hmul
            cases hdiv : checkedDiv m o.borrows[i].cumulativeBorrowRateSf with
            | none =>
                simp only [accrueInterest, attempt_ok, attempt_error, dif_pos i.isLt, Fin.eta,
                  if_neg hlive, require_pos hge, if_neg heq, hmul, Option.bind_eq_bind,
                  Option.bind_some, hdiv, okOr_none]
                exact .overflow hi hlt (.inr (checkedDiv_eq_none.mp hdiv))
            | some d =>
                obtain ⟨hpos, hd⟩ := checkedDiv_eq_some.mp hdiv
                simp only [accrueInterest, attempt_ok, dif_pos i.isLt, Fin.eta, if_neg hlive,
                  require_pos hge, if_neg heq, hmul, Option.bind_eq_bind, Option.bind_some, hdiv,
                  okOr_some]
                exact .grown hi hlt (hm ▸ m.isLt) (Nat.pos_of_ne_zero hpos) d (hm ▸ hd)
    · simp only [accrueInterest, attempt_error, dif_pos i.isLt, Fin.eta, if_neg hlive,
        require_neg hge]
      exact .decreased hi (Nat.lt_of_not_le (BitVec.le_def.not.mp hge))
  · rw [accrueInterest_inactive (Bool.eq_false_iff.mpr (borrowLayout_live.not.mp hi))]
    exact .inactive hi

/-! ## Successful calls -/

theorem deposit_ok {a : U64} (hk : k ≠ default) (h : (o.deposit k a).commit = .ok o') :
    0 < a.toNat ∧
    ((∃ (i : Fin maxDepositsCountInReserve) (d : U64), o.deposits[i].depositReserve = k ∧
        d.toNat = o.deposits[i].depositedAmount.toNat + a.toNat ∧
        o' = o.setDeposit i { o.deposits[i] with depositedAmount := d }) ∨
     (∃ i : Fin maxDepositsCountInReserve, ¬ depositLayout.Live o.deposits[i] ∧
        o' = o.openedDeposit i k a)) := by
  have hspec := deposit_spec (o := o) hk a
  rw [commit_eq_ok.mp h] at hspec
  cases hspec with
  | added i ha hi d hd => exact ⟨ha, .inl ⟨i, d, hi, hd, rfl⟩⟩
  | opened i ha hnew hi hfirst => exact ⟨ha, .inr ⟨i, hi, rfl⟩⟩

theorem withdraw_ok {a : U64} (h : (o.withdraw k a).commit = .ok o') :
    0 < a.toNat ∧ ∃ i : Fin maxDepositsCountInReserve, o.findDeposit k = .ok i ∧
      ((o.deposits[i].depositedAmount.toNat = a.toNat ∧ o' = o.clearedDeposit i) ∨
       (∃ left : U64, 0 < left.toNat ∧
          left.toNat + a.toNat = o.deposits[i].depositedAmount.toNat ∧
          o' = o.setDeposit i { o.deposits[i] with depositedAmount := left })) := by
  rw [commit_eq_ok] at h
  by_cases ha : a > 0
  · refine ⟨BitVec.lt_def.mp ha, ?_⟩
    rcases depositLayout.lookup_cases o.deposits k with ⟨i, hf, hi⟩ | ⟨hf, -⟩
    · refine ⟨i, by rw [findDeposit, okOr_eq_ok]; exact hf, ?_⟩
      rcases withdraw_found ha hf with ⟨-, he⟩ | ⟨left, hleft, he⟩ <;> rw [he] at h
      · cases h
      · cases h
        by_cases hz : left = 0
        · rw [settleDeposit, if_pos hz]
          rw [hz] at hleft
          exact .inl ⟨hleft.symm.trans (Nat.zero_add _), rfl⟩
        · rw [settleDeposit, if_neg hz]
          exact .inr ⟨left, ne_zero_iff_toNat_pos.mpr hz, hleft, rfl⟩
    · rw [withdraw_missing ha hf] at h
      cases h
  · rw [withdraw_zero ha] at h
    cases h

theorem borrow_ok {a c : U128} (hk : k ≠ default) (h : (o.borrow k a c).commit = .ok o') :
    0 < a.toNat ∧
    ((∃ (i : Fin maxBorrowCountInReserve) (d : U128), o.borrows[i].borrowReserve = k ∧
        d.toNat = o.borrows[i].borrowedAmountSf.toNat + a.toNat * 10 ^ 12 ∧
        o' = o.setBorrow i { o.borrows[i] with borrowedAmountSf := d }) ∨
     (∃ (i : Fin maxBorrowCountInReserve) (d : U128),
        (∀ j : Fin maxBorrowCountInReserve, o.borrows[j].borrowReserve ≠ k) ∧
        ¬ borrowLayout.Live o.borrows[i] ∧
        (∀ j : Fin maxBorrowCountInReserve, j < i → borrowLayout.Live o.borrows[j]) ∧
        d.toNat = a.toNat * 10 ^ 12 ∧ o' = o.openedBorrow i k c d)) := by
  have hspec := borrow_spec (o := o) hk a c
  rw [commit_eq_ok.mp h] at hspec
  cases hspec with
  | added i ha hi d hd => exact ⟨ha, .inl ⟨i, d, hi, hd, rfl⟩⟩
  | opened i ha hnew hi hfirst d hd => exact ⟨ha, .inr ⟨i, d, hnew, hi, hfirst, hd, rfl⟩⟩

theorem repay_ok {a : U128} (h : (o.repay k a).commit = .ok o') :
    0 < a.toNat ∧ ∃ i : Fin maxBorrowCountInReserve, o.findBorrow k = .ok i ∧
      ∃ left : U128, left.toNat + a.toNat * 10 ^ 12 = o.borrows[i].borrowedAmountSf.toNat ∧
        ((left.toNat < 10 ^ 12 ∧ o' = o.clearedBorrow i) ∨
         o' = o.setBorrow i { o.borrows[i] with borrowedAmountSf := left }) := by
  rw [commit_eq_ok] at h
  by_cases ha : a > 0
  · refine ⟨BitVec.lt_def.mp ha, ?_⟩
    rcases borrowLayout.lookup_cases o.borrows k with ⟨i, hf, hi⟩ | ⟨hf, -⟩
    · refine ⟨i, by rw [findBorrow, okOr_eq_ok]; exact hf, ?_⟩
      rcases repay_found ha hf with ⟨-, e, he⟩ | ⟨left, hleft, he⟩ <;> rw [he] at h
      · cases h
      · cases h
        refine ⟨left, hleft, ?_⟩
        by_cases hdust : left < rateScale
        · rw [settleBorrow, if_pos hdust]
          exact .inl ⟨lt_rateScale.mp hdust, rfl⟩
        · rw [settleBorrow, if_neg hdust]
          exact .inr rfl
    · rw [repay_missing ha hf] at h
      cases h
  · rw [repay_zero ha] at h
    cases h

theorem accrueInterest_ok {i : Fin maxBorrowCountInReserve} {c : U128}
    (h : (o.accrueInterest i c).commit = .ok o') :
    o' = o ∨
    (borrowLayout.Live o.borrows[i] ∧ o.borrows[i].cumulativeBorrowRateSf.toNat < c.toNat ∧
      0 < o.borrows[i].cumulativeBorrowRateSf.toNat ∧
      ∃ d : U128, d.toNat = o.borrows[i].borrowedAmountSf.toNat * c.toNat /
          o.borrows[i].cumulativeBorrowRateSf.toNat ∧
        o' = o.grownBorrow i c d) := by
  have hspec := accrueInterest_spec o i c
  rw [commit_eq_ok.mp h] at hspec
  cases hspec with
  | inactive hi => exact .inl rfl
  | same hi heq => exact .inl rfl
  | grown hi hlt hfit hpos d hd => exact .inr ⟨hi, hlt, hpos, d, hd, rfl⟩

theorem accrueInterest_ok_rate {i : Fin maxBorrowCountInReserve} {c : U128}
    (hi : borrowLayout.Live o.borrows[i]) (h : (o.accrueInterest i c).commit = .ok o') :
    o'.borrows[i].cumulativeBorrowRateSf = c := by
  have hspec := accrueInterest_spec o i c
  rw [commit_eq_ok.mp h] at hspec
  cases hspec with
  | inactive hn => exact absurd hi hn
  | same _ heq => exact heq.symm
  | grown _ hlt hfit hpos d hd =>
      rw [grownBorrow, setBorrow]
      simp only [getElem_set_fin_self]

theorem findBorrow_eq_ok {i : Fin maxBorrowCountInReserve} : o.findBorrow k = .ok i ↔
    o.borrows[i].borrowReserve = k ∧
      ∀ j : Fin maxBorrowCountInReserve, j < i → o.borrows[j].borrowReserve ≠ k := by
  simp only [findBorrow, okOr_eq_ok, findFinIdx?_eq_some, beq_iff_eq, beq_eq_false_iff_ne, ne_eq]

theorem findDeposit_eq_ok {i : Fin maxDepositsCountInReserve} : o.findDeposit k = .ok i ↔
    o.deposits[i].depositReserve = k ∧
      ∀ j : Fin maxDepositsCountInReserve, j < i → o.deposits[j].depositReserve ≠ k := by
  simp only [findDeposit, okOr_eq_ok, findFinIdx?_eq_some, beq_iff_eq, beq_eq_false_iff_ne, ne_eq]

/-- Rewriting a found slot under its own key does not change what is found. -/
theorem findDeposit_setDeposit {i : Fin maxDepositsCountInReserve} {c : ObligationCollateral}
    (h : o.findDeposit k = .ok i) (hc : c.depositReserve = k) :
    (o.setDeposit i c).findDeposit k = .ok i := by
  rw [findDeposit_eq_ok] at h ⊢
  refine ⟨by simpa using hc, fun j hj => ?_⟩
  rw [setDeposit_deposits, getElem_set_fin_ne _ _ (Fin.ne_of_gt hj)]
  exact h.2 j hj

theorem findBorrow_setBorrow {i : Fin maxBorrowCountInReserve} {b : ObligationLiquidity}
    (h : o.findBorrow k = .ok i) (hb : b.borrowReserve = k) :
    (o.setBorrow i b).findBorrow k = .ok i := by
  rw [findBorrow_eq_ok] at h ⊢
  refine ⟨by simpa using hb, fun j hj => ?_⟩
  rw [setBorrow_borrows, getElem_set_fin_ne _ _ (Fin.ne_of_gt hj)]
  exact h.2 j hj

theorem findBorrow_cases (o : Obligation) (k : Pubkey) : (∃ i, o.findBorrow k = .ok i) ∨
    (o.findBorrow k = .error (.lending .borrowNotFound) ∧
      ∀ j : Fin maxBorrowCountInReserve, o.borrows[j].borrowReserve ≠ k) := by
  rcases borrowLayout.lookup_cases o.borrows k with ⟨i, hf, -⟩ | ⟨hf, hnew⟩
  · exact .inl ⟨i, okOr_eq_ok.mpr hf⟩
  · refine .inr ⟨?_, hnew⟩
    show okOr (o.borrows.findFinIdx? (fun s => borrowLayout.key s == k)) _ = _
    rw [hf]
    rfl

/-- A borrow on a slot that exists adds to that slot. -/
theorem borrow_ok_of_found {i : Fin maxBorrowCountInReserve} {a c : U128} (hk : k ≠ default)
    (hf : o.findBorrow k = .ok i) (h : (o.borrow k a c).commit = .ok o') :
    ∃ d : U128, d.toNat = o.borrows[i].borrowedAmountSf.toNat + a.toNat * 10 ^ 12 ∧
      o' = o.setBorrow i { o.borrows[i] with borrowedAmountSf := d } := by
  have hact := borrowLayout_live.mp (borrow_live hk (findBorrow_eq_ok.mp hf).1)
  rw [findBorrow, okOr_eq_ok] at hf
  rw [commit_eq_ok] at h
  by_cases ha : a > 0
  · rcases borrow_found (c := c) ha hf hact with ⟨-, he⟩ | ⟨d, hd, he⟩
    · rw [he] at h
      cases h
    · rw [he] at h
      cases h
      exact ⟨d, hd, rfl⟩
  · rw [borrow_zero ha] at h
    cases h

/-- A first borrow records its amount, scaled, at the index it is given. -/
theorem borrow_ok_of_new {a c : U128} (hk : k ≠ default)
    (hnew : ∀ j : Fin maxBorrowCountInReserve, o.borrows[j].borrowReserve ≠ k)
    (h : (o.borrow k a c).commit = .ok o') :
    ∃ i, o'.findBorrow k = .ok i ∧ o'.borrows[i].cumulativeBorrowRateSf = c ∧
      o'.borrows[i].borrowedAmountSf.toNat = a.toNat * 10 ^ 12 := by
  obtain ⟨-, ⟨i, d, hi, -, -⟩ | ⟨i, d, -, -, -, hd, rfl⟩⟩ := borrow_ok hk h
  · exact absurd hi (hnew i)
  · refine ⟨i, findBorrow_eq_ok.mpr ⟨?_, fun j hj => ?_⟩, ?_, ?_⟩
    · rw [openedBorrow_borrows_self]
      rfl
    · show (o.borrows.set i _ i.isLt)[j].borrowReserve ≠ k
      rw [getElem_set_fin_ne _ _ (Fin.ne_of_gt hj)]
      exact hnew j
    · rw [openedBorrow_borrows_self]
      rfl
    · rw [openedBorrow_borrows_self]
      exact hd

/-- Accruing a found slot leaves it found, at the index it was accrued to. -/
theorem accrueInterest_found {i : Fin maxBorrowCountInReserve} {c : U128} (hk : k ≠ default)
    (hf : o.findBorrow k = .ok i) (h : (o.accrueInterest i c).commit = .ok o') :
    o'.findBorrow k = .ok i ∧ o'.borrows[i].cumulativeBorrowRateSf = c := by
  have hi := (findBorrow_eq_ok.mp hf).1
  refine ⟨?_, accrueInterest_ok_rate (borrow_live hk hi) h⟩
  rcases accrueInterest_ok h with rfl | ⟨-, -, -, d, -, rfl⟩
  · exact hf
  · exact findBorrow_setBorrow hf hi

/-- A repayment of no more than the debt goes through, and leaves the deposits alone. -/
theorem exists_repay {a : U128} {i : Fin maxBorrowCountInReserve} (hi : o.findBorrow k = .ok i)
    (hpos : a > 0) (hle : a.toNat * 10 ^ 12 ≤ o.borrows[i].borrowedAmountSf.toNat) :
    ∃ o', (o.repay k a).commit = .ok o' ∧ o'.deposits = o.deposits := by
  have hf := okOr_eq_ok.mp hi
  rcases repay_found hpos hf with ⟨hlt, -⟩ | ⟨left, -, hrun⟩
  · omega
  · refine ⟨o.settleBorrow i left, ?_, ?_⟩
    · rw [hrun, commit_ok]
    · unfold settleBorrow
      split
      · rfl
      · rfl

/-- A withdrawal of no more than the deposit goes through, and leaves the debts alone. -/
theorem exists_withdraw {a : U64} {j : Fin maxDepositsCountInReserve}
    (hj : o.findDeposit k = .ok j) (hpos : a > 0)
    (hle : a.toNat ≤ o.deposits[j].depositedAmount.toNat) :
    ∃ o', (o.withdraw k a).commit = .ok o' ∧ o'.borrows = o.borrows ∧
      o'.borrowsCount = o.borrowsCount := by
  have hf := okOr_eq_ok.mp hj
  rcases withdraw_found hpos hf with ⟨hlt, -⟩ | ⟨left, -, hrun⟩
  · omega
  · refine ⟨o.settleDeposit j left, ?_, ?_⟩
    · rw [hrun, commit_ok]
    · unfold settleDeposit
      split
      · exact ⟨rfl, rfl⟩
      · exact ⟨rfl, rfl⟩

/-- A debt at the index is left as it is. -/
theorem accrueInterest_same {i : Fin maxBorrowCountInReserve} {c : U128}
    (h : o.borrows[i].cumulativeBorrowRateSf = c) : (o.accrueInterest i c).commit = .ok o := by
  have hspec := o.accrueInterest_spec i c
  have hnat := congrArg BitVec.toNat h
  generalize o.accrueInterest i c = out at hspec
  cases hspec with
  | inactive => exact commit_ok _
  | decreased _ hlt => exact absurd hnat (Nat.ne_of_gt hlt)
  | same => exact commit_ok _
  | overflow _ hlt => exact absurd hnat (Nat.ne_of_lt hlt)
  | grown _ hlt => exact absurd hnat (Nat.ne_of_lt hlt)

end Obligation

end VeilVault
