/-
# VeilVault.Obligation.Refinement — the slot tables are finite maps.

A `Position` is what an obligation is for: one bounded map from reserves to cTokens and one from
reserves to scaled debts, without slots, order or counters.  `Position.step` is the intended effect
of each operation on it, and `Position.Refused` the operations that have none.

`Tidy` is the joint invariant of the tables.  Under it every call with token-sized amounts does to
`position` exactly what `step` says, fails exactly where `step` is undefined, and then changes
nothing (`Tidy.refines`); `tidy_refines_of_run` carries both along every run.
-/
import VeilVault.Kit.Run
import VeilVault.Obligation.Calls

namespace VeilVault

open Kit

/-! ## Abstract positions -/

/-- Deposits and debts by reserve. -/
structure Position where
  deposits : CapMap Pubkey maxDepositsCountInReserve
  borrows : CapMap Pubkey maxBorrowCountInReserve

namespace Position

/-- What a caller can ask of a position.  Debts are in units of `1 / rateScale`. -/
inductive Op
  | deposit (k : Pubkey) (a : ℕ)
  | withdraw (k : Pubkey) (a : ℕ)
  | borrow (k : Pubkey) (a : ℕ)
  | repay (k : Pubkey) (a : ℕ)
  /-- Multiply the debt at `k` by `c / c₀`, rounding down. -/
  | grow (k : Pubkey) (c₀ c : ℕ)
  /-- Grow the debt of a free slot: nothing. -/
  | idle
  /-- Grow the debt of a slot that does not exist. -/
  | outOfRange

open Classical in
/-- The effect of an operation, if there is one. -/
noncomputable def step (p : Position) : Op → Option Position
  | .deposit k a => (p.deposits.credit (2 ^ 64) k a).map fun m => { p with deposits := m }
  | .withdraw k a => (p.deposits.debit 1 k a).map fun m => { p with deposits := m }
  | .borrow k a => (p.borrows.credit (2 ^ 128) k (a * 10 ^ 12)).map fun m => { p with borrows := m }
  | .repay k a =>
      (p.borrows.debit (10 ^ 12) k (a * 10 ^ 12)).map fun m => { p with borrows := m }
  | .grow k c₀ c =>
      if c = c₀ then some p
      else if h : c₀ < c ∧ c₀ ≠ 0 ∧ p.borrows.amounts k * c < 2 ^ 128 ∧ p.borrows.amounts k ≠ 0 then
        some { p with borrows := p.borrows.regrade k (p.borrows.amounts k * c / c₀) h.2.2.2 }
      else none
  | .idle => some p
  | .outOfRange => none

/-- When an operation is refused: a zero amount, a missing key, too large an amount, a full map, a
sum or product that does not fit, or an index that goes down. -/
def Refused (p : Position) : Op → Prop
  | .deposit k a => a = 0 ∨
      (p.deposits.amounts k = 0 ∧ p.deposits.amounts.support.card = maxDepositsCountInReserve) ∨
      2 ^ 64 ≤ p.deposits.amounts k + a
  | .withdraw k a => a = 0 ∨ p.deposits.amounts k = 0 ∨ p.deposits.amounts k < a
  | .borrow k a => a = 0 ∨
      (p.borrows.amounts k = 0 ∧ p.borrows.amounts.support.card = maxBorrowCountInReserve) ∨
      2 ^ 128 ≤ p.borrows.amounts k + a * 10 ^ 12
  | .repay k a => a = 0 ∨ p.borrows.amounts k = 0 ∨ p.borrows.amounts k < a * 10 ^ 12
  | .grow k c₀ c => c < c₀ ∨
      (c₀ < c ∧ (c₀ = 0 ∨ 2 ^ 128 ≤ p.borrows.amounts k * c ∨ p.borrows.amounts k = 0))
  | .idle => False
  | .outOfRange => True

theorem scaled_eq_zero {a : ℕ} : a * 10 ^ 12 = 0 ↔ a = 0 := by omega

theorem step_eq_none {p : Position} {op : Op} : p.step op = none ↔ p.Refused op := by
  cases op with
  | deposit k a => rw [step, Option.map_eq_none_iff, CapMap.credit_eq_none, Refused]
  | withdraw k a => rw [step, Option.map_eq_none_iff, CapMap.debit_eq_none, Refused]
  | borrow k a =>
      rw [step, Option.map_eq_none_iff, CapMap.credit_eq_none, Refused, scaled_eq_zero]
  | repay k a =>
      rw [step, Option.map_eq_none_iff, CapMap.debit_eq_none, Refused, scaled_eq_zero]
  | grow k c₀ c =>
      rw [step, Refused]
      split
      case isTrue h => simp [h]
      case isFalse h =>
        split
        case isTrue h' =>
          simp only [reduceCtorEq, false_iff]
          rintro (hlt | ⟨-, h0 | hbig | hz⟩)
          · omega
          · exact h'.2.1 h0
          · omega
          · exact h'.2.2.2 hz
        case isFalse h' =>
          simp only [true_iff]
          by_contra hcon
          exact h' ⟨by omega, by omega, by omega, by omega⟩
  | idle => simp [step, Refused]
  | outOfRange => simp [step, Refused]

/-- The key an operation is about. -/
def Op.key : Op → Option Pubkey
  | .deposit k _ | .withdraw k _ | .borrow k _ | .repay k _ | .grow k _ _ => some k
  | .idle | .outOfRange => none

/-- An operation leaves every other key alone, in both maps. -/
theorem step_other {p p' : Position} {op : Op} (h : p.step op = some p') {k : Pubkey}
    (hk : op.key ≠ some k) :
    p'.deposits.amounts k = p.deposits.amounts k ∧ p'.borrows.amounts k = p.borrows.amounts k := by
  cases op with
  | deposit k₀ a =>
      obtain ⟨m, hm, rfl⟩ := Option.map_eq_some_iff.mp h
      exact ⟨CapMap.credit_other hm fun he => hk (by rw [Op.key, he]), rfl⟩
  | withdraw k₀ a =>
      obtain ⟨m, hm, rfl⟩ := Option.map_eq_some_iff.mp h
      exact ⟨CapMap.debit_other hm fun he => hk (by rw [Op.key, he]), rfl⟩
  | borrow k₀ a =>
      obtain ⟨m, hm, rfl⟩ := Option.map_eq_some_iff.mp h
      exact ⟨rfl, CapMap.credit_other hm fun he => hk (by rw [Op.key, he])⟩
  | repay k₀ a =>
      obtain ⟨m, hm, rfl⟩ := Option.map_eq_some_iff.mp h
      exact ⟨rfl, CapMap.debit_other hm fun he => hk (by rw [Op.key, he])⟩
  | grow k₀ c₀ c =>
      rw [step] at h
      split at h
      · cases h
        exact ⟨rfl, rfl⟩
      · split at h
        case isTrue hgrow =>
          cases h
          exact ⟨rfl, CapMap.regrade_other hgrow.2.2.2 fun he => hk (by rw [Op.key, he])⟩
        case isFalse => cases h
  | idle =>
      cases h
      exact ⟨rfl, rfl⟩
  | outOfRange => cases h

end Position

namespace Obligation

variable {o o' : Obligation} {k : Pubkey}

/-- The maps an obligation stores. -/
noncomputable def position (o : Obligation) : Position where
  deposits := depositLayout.abs o.deposits
  borrows := borrowLayout.abs o.borrows

/-! ## The joint invariant -/

/-- A deposit slot is free and blank, or holds something. -/
def DepositSlotOk (c : ObligationCollateral) : Prop :=
  (depositLayout.Live c → 0 < c.depositedAmount.toNat) ∧ (¬ depositLayout.Live c → c = default)

/-- A borrow slot is free and blank, or owes at least one atomic unit. -/
def BorrowSlotOk (b : ObligationLiquidity) : Prop :=
  (borrowLayout.Live b → 10 ^ 12 ≤ b.borrowedAmountSf.toNat) ∧ (¬ borrowLayout.Live b → b = default)

def SlotsOk (o : Obligation) : Prop :=
  (∀ i : Fin maxDepositsCountInReserve, DepositSlotOk o.deposits[i]) ∧
  (∀ i : Fin maxBorrowCountInReserve, BorrowSlotOk o.borrows[i])

structure Tidy (o : Obligation) : Prop where
  distinctDeposits : depositLayout.Distinct o.deposits
  distinctBorrows : borrowLayout.Distinct o.borrows
  depositsCount_eq : o.depositsCount.toNat = depositLayout.liveCount o.deposits
  borrowsCount_eq : o.borrowsCount.toNat = borrowLayout.liveCount o.borrows
  slots : o.SlotsOk

theorem Tidy.depositsCount_le (h : o.Tidy) : o.depositsCount.toNat ≤ 8 :=
  h.depositsCount_eq ▸ Layout.liveCount_le

theorem Tidy.borrowsCount_le (h : o.Tidy) : o.borrowsCount.toNat ≤ 8 :=
  h.borrowsCount_eq ▸ Layout.liveCount_le

theorem Tidy.deposit_pos (h : o.Tidy) (i : Fin maxDepositsCountInReserve)
    (hi : depositLayout.Live o.deposits[i]) : 0 < o.deposits[i].depositedAmount.toNat :=
  (h.slots.1 i).1 hi

theorem Tidy.borrow_pos (h : o.Tidy) (i : Fin maxBorrowCountInReserve)
    (hi : borrowLayout.Live o.borrows[i]) : 0 < o.borrows[i].borrowedAmountSf.toNat :=
  Nat.lt_of_lt_of_le (by decide) ((h.slots.2 i).1 hi)

theorem depositSlotOk_default : DepositSlotOk default :=
  ⟨fun h => absurd h depositLayout_default, fun _ => rfl⟩

theorem borrowSlotOk_default : BorrowSlotOk default :=
  ⟨fun h => absurd h borrowLayout_default, fun _ => rfl⟩

theorem depositSlotOk_live {c : ObligationCollateral} (hc : depositLayout.Live c)
    (h : 0 < c.depositedAmount.toNat) : DepositSlotOk c :=
  ⟨fun _ => h, fun hn => absurd hc hn⟩

theorem borrowSlotOk_live {b : ObligationLiquidity} (hb : borrowLayout.Live b)
    (h : 10 ^ 12 ≤ b.borrowedAmountSf.toNat) : BorrowSlotOk b :=
  ⟨fun _ => h, fun hn => absurd hb hn⟩

theorem tidy_init (owner market : Pubkey) : (init owner market).Tidy := by
  have hd (i : Fin maxDepositsCountInReserve) : (init owner market).deposits[i] = default :=
    Vector.getElem_replicate i.isLt
  have hb (i : Fin maxBorrowCountInReserve) : (init owner market).borrows[i] = default :=
    Vector.getElem_replicate i.isLt
  exact {
    distinctDeposits := fun i _ h => absurd (hd i ▸ h) depositLayout_default
    distinctBorrows := fun i _ h => absurd (hb i ▸ h) borrowLayout_default
    depositsCount_eq := by
      rw [Layout.liveCount, Finset.sum_eq_zero]
      · rfl
      · exact fun i _ => if_neg (hd i ▸ depositLayout_default)
    borrowsCount_eq := by
      rw [Layout.liveCount, Finset.sum_eq_zero]
      · rfl
      · exact fun i _ => if_neg (hb i ▸ borrowLayout_default)
    slots := ⟨fun i => hd i ▸ depositSlotOk_default, fun i => hb i ▸ borrowSlotOk_default⟩ }

/-! ## Calls on tidy tables -/

/-- The operation a call asks for.  An accrual names a slot; the key and the old index are read
there. -/
def op (o : Obligation) : Call → Position.Op
  | .deposit k a => .deposit k.1 a.toNat
  | .withdraw k a => .withdraw k.1 a.toNat
  | .borrow k a _ => .borrow k.1 a.toNat
  | .repay k a => .repay k.1 a.toNat
  | .accrueInterest j c =>
      if h : j < maxBorrowCountInReserve then
        let b := o.borrows[j]
        if b.isActive then .grow b.borrowReserve b.cumulativeBorrowRateSf.toNat c.toNat else .idle
      else .outOfRange

/-- The call does what its operation means, or is refused with the operation and changes nothing. -/
structure Refines (o : Obligation) (c : Call) : Prop where
  acts : ∀ p, o.position.step (o.op c) = some p →
    (o.call c).1 = .ok () ∧ (o.after c).position = p
  fails : o.position.Refused (o.op c) → ∃ e, o.call c = (.error e, o)
  others : ∀ k, (o.op c).key ≠ some k →
    (o.after c).position.deposits.amounts k = o.position.deposits.amounts k ∧
    (o.after c).position.borrows.amounts k = o.position.borrows.amounts k

/-- It is enough to exhibit the operation's result, or a refusal. -/
theorem refines_of {c : Call}
    (h : (∃ o' p, o.call c = (.ok (), o') ∧ o.position.step (o.op c) = some p ∧ o'.position = p) ∨
      (o.position.Refused (o.op c) ∧ ∃ e, o.call c = (.error e, o))) : o.Refines c := by
  rcases h with ⟨o', p, hcall, hstep, hpos⟩ | ⟨hrefused, e, hcall⟩
  · refine ⟨fun p' hp' => ?_, fun hr => ?_, fun k hk => ?_⟩
    · obtain rfl := Option.some.inj (hstep.symm.trans hp')
      exact ⟨by rw [hcall], by rw [after, hcall]; exact hpos⟩
    · rw [← Position.step_eq_none, hstep] at hr
      cases hr
    · rw [after, hcall, hpos]
      exact Position.step_other hstep hk
  · refine ⟨fun p hp => ?_, fun _ => ⟨e, hcall⟩, fun k _ => by rw [after, hcall]; exact ⟨rfl, rfl⟩⟩
    rw [Position.step_eq_none.mpr hrefused] at hp
    cases hp

theorem Tidy.amount_deposit (h : o.Tidy) {i : Fin maxDepositsCountInReserve} (hk : k ≠ default)
    (hi : o.deposits[i].depositReserve = k) :
    o.position.deposits.amounts k = o.deposits[i].depositedAmount.toNat := by
  rw [← hi]
  exact Layout.toMap_key h.distinctDeposits (deposit_live hk hi)

theorem Tidy.amount_borrow (h : o.Tidy) {i : Fin maxBorrowCountInReserve} (hk : k ≠ default)
    (hi : o.borrows[i].borrowReserve = k) :
    o.position.borrows.amounts k = o.borrows[i].borrowedAmountSf.toNat := by
  rw [← hi]
  exact Layout.toMap_key h.distinctBorrows (borrow_live hk hi)

theorem amount_deposit_absent
    (hnew : ∀ j : Fin maxDepositsCountInReserve, o.deposits[j].depositReserve ≠ k) :
    o.position.deposits.amounts k = 0 := Layout.toMap_absent hnew

theorem amount_borrow_absent
    (hnew : ∀ j : Fin maxBorrowCountInReserve, o.borrows[j].borrowReserve ≠ k) :
    o.position.borrows.amounts k = 0 := Layout.toMap_absent hnew

theorem Tidy.card_deposits (h : o.Tidy) :
    o.position.deposits.amounts.support.card = depositLayout.liveCount o.deposits :=
  Layout.card_support_toMap h.distinctDeposits h.deposit_pos

theorem Tidy.card_borrows (h : o.Tidy) :
    o.position.borrows.amounts.support.card = borrowLayout.liveCount o.borrows :=
  Layout.card_support_toMap h.distinctBorrows h.borrow_pos

/-- Rewriting a live deposit slot under its own key. -/
theorem Tidy.position_setDeposit (h : o.Tidy) {i : Fin maxDepositsCountInReserve}
    (hk : k ≠ default) (hi : o.deposits[i].depositReserve = k) (d : U64) :
    (o.setDeposit i { o.deposits[i] with depositedAmount := d }).position.deposits.amounts =
      o.position.deposits.amounts.update k d.toNat := by
  rw [← hi]
  exact Layout.toMap_set_live h.distinctDeposits (deposit_live hk hi) rfl

/-- Rewriting a live borrow slot under its own key. -/
theorem Tidy.position_setBorrow (h : o.Tidy) {i : Fin maxBorrowCountInReserve}
    (hk : k ≠ default) (hi : o.borrows[i].borrowReserve = k) (d : U128) :
    (o.setBorrow i { o.borrows[i] with borrowedAmountSf := d }).position.borrows.amounts =
      o.position.borrows.amounts.update k d.toNat := by
  rw [← hi]
  exact Layout.toMap_set_live h.distinctBorrows (borrow_live hk hi) rfl

theorem Tidy.position_grownBorrow (h : o.Tidy) {i : Fin maxBorrowCountInReserve}
    (hi : borrowLayout.Live o.borrows[i]) (c d : U128) :
    (o.grownBorrow i c d).position.borrows.amounts =
      o.position.borrows.amounts.update o.borrows[i].borrowReserve d.toNat :=
  Layout.toMap_set_live h.distinctBorrows hi rfl

theorem Tidy.refines_deposit (h : o.Tidy) (k : ReserveKey) (a : U64) :
    o.Refines (.deposit k a) := by
  apply refines_of
  have hspec := deposit_spec (o := o) k.2 a
  simp only [call, op]
  generalize o.deposit k.1 a = r at hspec
  cases hspec with
  | zero ha => exact .inr ⟨.inl ha, _, rfl⟩
  | overflow i ha hi hbig =>
      exact .inr ⟨.inr (.inr (by rw [h.amount_deposit k.2 hi]; exact hbig)), _, rfl⟩
  | full ha hnew hall =>
      refine .inr ⟨.inr (.inl ⟨amount_deposit_absent hnew, ?_⟩), _, rfl⟩
      rw [h.card_deposits, Layout.liveCount_eq_of_forall hall]
  -- the map's entry is the slot's amount, and a live slot is never at zero
  | added i ha hi d hd =>
      have hamt := h.amount_deposit k.2 hi
      have hcredit : o.position.deposits.credit (2 ^ 64) k.1 a.toNat =
          some (o.setDeposit i { o.deposits[i] with depositedAmount := d }).position.deposits := by
        rw [CapMap.credit_eq_some, h.position_setDeposit k.2 hi, hamt, hd]
        have := h.deposit_pos i (deposit_live k.2 hi)
        have := d.isLt
        exact ⟨⟨ha, fun h0 => by omega, by omega⟩, rfl⟩
      refine .inl ⟨_, _, rfl, ?_, rfl⟩
      rw [Position.step, hcredit]
      rfl
  -- a free slot is room in the map, whose support counts the live ones
  | opened i ha hnew hi hfirst =>
      have hcredit : o.position.deposits.credit (2 ^ 64) k.1 a.toNat =
          some (o.openedDeposit i k.1 a).position.deposits := by
        rw [CapMap.credit_eq_some, amount_deposit_absent hnew, h.card_deposits, Nat.zero_add]
        exact ⟨⟨ha, fun _ => Layout.liveCount_lt hi, a.isLt⟩,
          Layout.toMap_set_fresh hi k.2 hnew⟩
      refine .inl ⟨_, _, rfl, ?_, rfl⟩
      rw [Position.step, hcredit]
      rfl

theorem Tidy.refines_withdraw (h : o.Tidy) (k : ReserveKey) (a : U64) :
    o.Refines (.withdraw k a) := by
  apply refines_of
  have hspec := withdraw_spec o k.1 a
  simp only [call, op]
  generalize o.withdraw k.1 a = r at hspec
  cases hspec with
  | zero ha => exact .inr ⟨.inl ha, _, rfl⟩
  | missing ha hnew => exact .inr ⟨.inr (.inl (amount_deposit_absent hnew)), _, rfl⟩
  | tooMuch i ha hi hlt =>
      exact .inr ⟨.inr (.inr (by rw [h.amount_deposit k.2 hi]; exact hlt)), _, rfl⟩
  -- withdrawing everything frees the slot and deletes the entry
  | cleared i ha hi heq =>
      have hdebit : o.position.deposits.debit 1 k.1 a.toNat =
          some (o.clearedDeposit i).position.deposits := by
        rw [CapMap.debit_eq_some, h.amount_deposit k.2 hi, if_pos (by omega)]
        refine ⟨by omega, ?_⟩
        have hfree := Layout.toMap_set_free h.distinctDeposits (deposit_live k.2 hi)
          depositLayout_default
        rw [show depositLayout.key o.deposits[i] = k.1 from hi] at hfree
        exact hfree
      refine .inl ⟨_, _, rfl, ?_, rfl⟩
      rw [Position.step, hdebit]
      rfl
  | reduced i ha hi left hleft heq =>
      have hdebit : o.position.deposits.debit 1 k.1 a.toNat =
          some (o.setDeposit i
            { o.deposits[i] with depositedAmount := left }).position.deposits := by
        rw [CapMap.debit_eq_some, h.amount_deposit k.2 hi, h.position_setDeposit k.2 hi,
          if_neg (by omega)]
        exact ⟨by omega, by rw [← heq, Nat.add_sub_cancel]⟩
      refine .inl ⟨_, _, rfl, ?_, rfl⟩
      rw [Position.step, hdebit]
      rfl

theorem Tidy.refines_borrow (h : o.Tidy) (k : ReserveKey) {a : U128} (ha64 : a.toNat < 2 ^ 64)
    (c : U128) : o.Refines (.borrow k a c) := by
  apply refines_of
  have hspec := borrow_spec (o := o) k.2 a c
  simp only [call, op]
  generalize o.borrow k.1 a c = r at hspec
  cases hspec with
  | zero ha => exact .inr ⟨.inl ha, _, rfl⟩
  | overflow i ha hi hbig =>
      exact .inr ⟨.inr (.inr (by rw [h.amount_borrow k.2 hi]; exact hbig)), _, rfl⟩
  -- a token amount always scales, so no error leaves a slot open
  | openedOverflow i ha hnew hi hfirst hbig => omega
  | full ha hnew hall =>
      refine .inr ⟨.inr (.inl ⟨amount_borrow_absent hnew, ?_⟩), _, rfl⟩
      rw [h.card_borrows, Layout.liveCount_eq_of_forall hall]
  | added i ha hi d hd =>
      have hcredit : o.position.borrows.credit (2 ^ 128) k.1 (a.toNat * 10 ^ 12) =
          some (o.setBorrow i { o.borrows[i] with borrowedAmountSf := d }).position.borrows := by
        rw [CapMap.credit_eq_some, h.position_setBorrow k.2 hi, h.amount_borrow k.2 hi, hd]
        have := h.borrow_pos i (borrow_live k.2 hi)
        have := d.isLt
        exact ⟨⟨by omega, fun h0 => by omega, by omega⟩, rfl⟩
      refine .inl ⟨_, _, rfl, ?_, rfl⟩
      rw [Position.step, hcredit]
      rfl
  | opened i ha hnew hi hfirst d hd =>
      have hcredit : o.position.borrows.credit (2 ^ 128) k.1 (a.toNat * 10 ^ 12) =
          some (o.openedBorrow i k.1 c d).position.borrows := by
        rw [CapMap.credit_eq_some, amount_borrow_absent hnew, h.card_borrows, Nat.zero_add, ← hd]
        exact ⟨⟨by omega, fun _ => Layout.liveCount_lt hi, d.isLt⟩,
          Layout.toMap_set_fresh hi k.2 hnew⟩
      refine .inl ⟨_, _, rfl, ?_, rfl⟩
      rw [Position.step, hcredit]
      rfl

theorem Tidy.refines_repay (h : o.Tidy) (k : ReserveKey) (a : U128) :
    o.Refines (.repay k a) := by
  apply refines_of
  have hspec := repay_spec o k.1 a
  simp only [call, op]
  generalize o.repay k.1 a = r at hspec
  cases hspec with
  | zero ha => exact .inr ⟨.inl ha, _, rfl⟩
  | missing ha hnew => exact .inr ⟨.inr (.inl (amount_borrow_absent hnew)), _, rfl⟩
  | tooMuch i ha hi e hlt =>
      exact .inr ⟨.inr (.inr (by rw [h.amount_borrow k.2 hi]; exact hlt)), _, rfl⟩
  -- what is left is less than a token unit: the slot is freed and the rest forgiven
  | cleared i ha hi hle hlt =>
      have hdebit : o.position.borrows.debit (10 ^ 12) k.1 (a.toNat * 10 ^ 12) =
          some (o.clearedBorrow i).position.borrows := by
        rw [CapMap.debit_eq_some, h.amount_borrow k.2 hi, if_pos (by omega)]
        refine ⟨by omega, ?_⟩
        have hfree := Layout.toMap_set_free h.distinctBorrows (borrow_live k.2 hi)
          borrowLayout_default
        rw [show borrowLayout.key o.borrows[i] = k.1 from hi] at hfree
        exact hfree
      refine .inl ⟨_, _, rfl, ?_, rfl⟩
      rw [Position.step, hdebit]
      rfl
  | reduced i ha hi left hleft heq =>
      have hdebit : o.position.borrows.debit (10 ^ 12) k.1 (a.toNat * 10 ^ 12) =
          some (o.setBorrow i { o.borrows[i] with borrowedAmountSf := left }).position.borrows := by
        rw [CapMap.debit_eq_some, h.amount_borrow k.2 hi, h.position_setBorrow k.2 hi,
          if_neg (by omega)]
        exact ⟨by omega, by rw [← heq, Nat.add_sub_cancel]⟩
      refine .inl ⟨_, _, rfl, ?_, rfl⟩
      rw [Position.step, hdebit]
      rfl

/-- A live slot asks for its own key to grow, a free one for nothing. -/
theorem op_accrueInterest (i : Fin maxBorrowCountInReserve) (c : U128) :
    o.op (.accrueInterest i c) = if o.borrows[i].isActive then
      .grow o.borrows[i].borrowReserve o.borrows[i].cumulativeBorrowRateSf.toNat c.toNat
    else .idle := by
  rw [op, dif_pos i.isLt]
  rfl

theorem Tidy.refines_accrueSlot (h : o.Tidy) (i : Fin maxBorrowCountInReserve) (c : U128) :
    o.Refines (.accrueInterest i c) := by
  apply refines_of
  rw [op_accrueInterest, call]
  have hspec := accrueInterest_spec o i c
  have hamt (hi : borrowLayout.Live o.borrows[i]) :
      o.position.borrows.amounts o.borrows[i].borrowReserve =
        o.borrows[i].borrowedAmountSf.toNat := h.amount_borrow hi rfl
  generalize o.accrueInterest i c = r at hspec
  cases hspec with
  | inactive hi =>
      rw [if_neg (borrowLayout_live.not.mp hi)]
      exact .inl ⟨o, _, rfl, rfl, rfl⟩
  | decreased hi hlt =>
      rw [if_pos (borrowLayout_live.mp hi)]
      exact .inr ⟨.inl hlt, _, rfl⟩
  -- at its own index nothing is computed, so nothing can overflow
  | same hi heq =>
      rw [if_pos (borrowLayout_live.mp hi)]
      refine .inl ⟨o, _, rfl, ?_, rfl⟩
      rw [Position.step, if_pos (congrArg BitVec.toNat heq)]
  | overflow hi hlt hbig =>
      rw [if_pos (borrowLayout_live.mp hi)]
      refine .inr ⟨.inr ⟨hlt, ?_⟩, _, rfl⟩
      rw [hamt hi]
      rcases hbig with hbig | hzero
      · exact .inr (.inl hbig)
      · exact .inl hzero
  -- the debt stays positive, so regrading keeps the entry
  | grown hi hlt hfit hpos d hd =>
      rw [if_pos (borrowLayout_live.mp hi)]
      have hdebt := h.borrow_pos i hi
      have hgrow : o.borrows[i].cumulativeBorrowRateSf.toNat < c.toNat ∧
          o.borrows[i].cumulativeBorrowRateSf.toNat ≠ 0 ∧
          o.position.borrows.amounts o.borrows[i].borrowReserve * c.toNat < 2 ^ 128 ∧
          o.position.borrows.amounts o.borrows[i].borrowReserve ≠ 0 := by
        rw [hamt hi]
        exact ⟨hlt, hpos.ne', hfit, hdebt.ne'⟩
      have hregrade : o.position.borrows.regrade o.borrows[i].borrowReserve
          (o.position.borrows.amounts o.borrows[i].borrowReserve * c.toNat /
            o.borrows[i].cumulativeBorrowRateSf.toNat) hgrow.2.2.2 =
          (o.grownBorrow i c d).position.borrows := by
        apply CapMap.ext
        rw [CapMap.regrade_amounts, h.position_grownBorrow hi, hamt hi, ← hd]
      refine .inl ⟨_, _, rfl, ?_, rfl⟩
      rw [Position.step, if_neg hlt.ne', dif_pos hgrow, hregrade]
      rfl

theorem Tidy.refines_accrueInterest (h : o.Tidy) (j : Nat) (c : U128) :
    o.Refines (.accrueInterest j c) := by
  by_cases hj : j < maxBorrowCountInReserve
  · exact h.refines_accrueSlot ⟨j, hj⟩ c
  · have hop : o.op (.accrueInterest j c) = .outOfRange := by rw [op, dif_neg hj]
    apply refines_of
    rw [hop]
    exact .inr ⟨trivial, _, accrueInterest_out_of_range hj⟩

/-! ## Runs of token-sized calls -/

end Obligation

/-- The amount comes from a token amount. -/
def Call.TokenSized : Call → Prop
  | .borrow _ a _ | .repay _ a => a.toNat < 2 ^ 64
  | _ => True

/-- A call as the instructions make it: every amount was a `u64`. -/
abbrev TokenCall := { c : Call // c.TokenSized }

namespace Obligation

variable {o : Obligation}

theorem Tidy.refines (h : o.Tidy) : ∀ c : TokenCall, o.Refines c.1
  | ⟨.deposit k a, _⟩ => h.refines_deposit k a
  | ⟨.withdraw k a, _⟩ => h.refines_withdraw k a
  | ⟨.borrow k _ c, ha⟩ => h.refines_borrow k ha c
  | ⟨.repay k a, _⟩ => h.refines_repay k a
  | ⟨.accrueInterest j c, _⟩ => h.refines_accrueInterest j c

/-- The amounts in the slots stay as the invariant wants them. -/
theorem Tidy.slotsOk_after (h : o.Tidy) (c : TokenCall) : (o.after c.1).SlotsOk := by
  obtain ⟨c, hc⟩ := c
  cases c with
  | deposit k a =>
      have hspec := deposit_spec (o := o) k.2 a
      simp only [after, call]
      generalize o.deposit k.1 a = r at hspec
      cases hspec with
      | added i ha hi d hd =>
          exact ⟨forall_set h.slots.1
            (depositSlotOk_live (deposit_live k.2 hi) (by simp only; omega)), h.slots.2⟩
      | opened i ha hnew hi hfirst =>
          exact ⟨forall_set h.slots.1 (depositSlotOk_live k.2 ha), h.slots.2⟩
      | _ => exact h.slots
  | withdraw k a =>
      have hspec := withdraw_spec o k.1 a
      simp only [after, call]
      generalize o.withdraw k.1 a = r at hspec
      cases hspec with
      | cleared i ha hi heq => exact ⟨forall_set h.slots.1 depositSlotOk_default, h.slots.2⟩
      | reduced i ha hi left hleft heq =>
          exact ⟨forall_set h.slots.1 (depositSlotOk_live (deposit_live k.2 hi) hleft),
            h.slots.2⟩
      | _ => exact h.slots
  | borrow k a c =>
      have hspec := borrow_spec (o := o) k.2 a c
      simp only [Call.TokenSized] at hc
      simp only [after, call]
      generalize o.borrow k.1 a c = r at hspec
      cases hspec with
      | added i ha hi d hd =>
          exact ⟨h.slots.1, forall_set h.slots.2
            (borrowSlotOk_live (borrow_live k.2 hi) (by simp only; omega))⟩
      | opened i ha hnew hi hfirst d hd =>
          exact ⟨h.slots.1, forall_set h.slots.2
            (borrowSlotOk_live k.2 (by simp only; omega))⟩
      -- a token amount times the scale fits `u128`
      | openedOverflow i ha hnew hi hfirst hbig => omega
      | _ => exact h.slots
  | repay k a =>
      have hspec := repay_spec o k.1 a
      simp only [after, call]
      generalize o.repay k.1 a = r at hspec
      cases hspec with
      | cleared i ha hi hle hlt => exact ⟨h.slots.1, forall_set h.slots.2 borrowSlotOk_default⟩
      | reduced i ha hi left hleft heq =>
          exact ⟨h.slots.1, forall_set h.slots.2
            (borrowSlotOk_live (borrow_live k.2 hi) hleft)⟩
      | _ => exact h.slots
  | accrueInterest j c =>
      simp only [after, call]
      by_cases hj : j < maxBorrowCountInReserve
      · have hspec := accrueInterest_spec o ⟨j, hj⟩ c
        simp only at hspec
        generalize o.accrueInterest j c = r at hspec
        cases hspec with
        | grown hi hlt hfit hpos d hd =>
            refine ⟨h.slots.1, forall_set h.slots.2 (borrowSlotOk_live hi ?_)⟩
            -- an index that grows never shrinks the debt
            have hdebt := (h.slots.2 ⟨j, hj⟩).1 hi
            simp only [hd]
            rw [Nat.le_div_iff_mul_le hpos]
            exact Nat.mul_le_mul hdebt hlt.le
        | _ => exact h.slots
      · rw [accrueInterest_out_of_range hj]
        exact h.slots

theorem Tidy.after (h : o.Tidy) (c : TokenCall) : (o.after c.1).Tidy where
  distinctDeposits := (after_deposits o c.1 h.depositsCount_le).distinct h.distinctDeposits
  distinctBorrows := (after_borrows o c.1 h.borrowsCount_le).distinct h.distinctBorrows
  depositsCount_eq := (after_deposits o c.1 h.depositsCount_le).liveCount h.depositsCount_eq
  borrowsCount_eq := (after_borrows o c.1 h.borrowsCount_le).liveCount h.borrowsCount_eq
  slots := h.slotsOk_after c

/-- Every obligation that token-sized calls can produce is tidy, and acts as the maps it stores. -/
theorem tidy_refines_of_run (owner market : Pubkey) (calls : List TokenCall) :
    (calls.foldl (fun o c => o.after c.1) (init owner market)).Tidy ∧
    ∀ c : TokenCall, (calls.foldl (fun o c => o.after c.1) (init owner market)).Refines c.1 := by
  have htidy := foldl_invariant calls _ (tidy_init owner market) fun o c _ h => Tidy.after h c
  exact ⟨htidy, htidy.refines⟩

end Obligation

end VeilVault
