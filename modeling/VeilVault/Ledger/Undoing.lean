/-
# VeilVault.Ledger.Undoing — a borrow, taken back.

A repayment of what was just borrowed leaves the reserve and the obligation as the borrow found
them, interest apart.  A slot that was in use owes what it owed.  A slot that the borrow opened is
cleared, and it was blank before (`Tidy`): nothing of the borrow stays behind, neither in the slot
nor in the counter.
-/
import VeilVault.Ledger.Simulation

namespace VeilVault

open Kit Kit.Outcome

theorem Reserve.repay_borrow {r r' : Reserve} {a : U64} (h : r.borrow a = .ok r') :
    r'.repay a = .ok r := by
  obtain ⟨-, l', hl, rfl⟩ := Reserve.borrow_ok.mp h
  obtain ⟨v, d, hv, hd, rfl⟩ := ReserveLiquidity.borrow_ok.mp hl
  have hback : ReserveLiquidity.repay { r.liquidity with
      availableAmount := v, borrowedAmountSf := d } a = .ok r.liquidity :=
    ReserveLiquidity.repay_ok.mpr
      ⟨r.liquidity.availableAmount, r.liquidity.borrowedAmountSf, hv.symm, hd.symm, rfl⟩
  exact Reserve.repay_ok.mpr ⟨r.liquidity, hback, rfl⟩

namespace Obligation

variable {o o' : Obligation} {k : Pubkey}

/-- The slot of a reserve is found wherever it is. -/
theorem Tidy.findBorrow_eq_ok (h : o.Tidy) (hk : k ≠ default) {i : Fin maxBorrowCountInReserve}
    (hi : o.borrows[i].borrowReserve = k) : o.findBorrow k = .ok i := by
  refine Obligation.findBorrow_eq_ok.mpr ⟨hi, fun j hj he => ?_⟩
  have hsame : j = i := h.distinctBorrows j i (borrow_live hk he) (he.trans hi.symm)
  exact absurd hsame (Fin.ne_of_lt hj)

/-- What a found slot is left with by a repayment. -/
theorem repay_settles {a : U128} (left : U128) {i : Fin maxBorrowCountInReserve}
    (hpos : 0 < a.toNat) (hi : o.findBorrow k = .ok i)
    (hleft : left.toNat + a.toNat * 10 ^ 12 = o.borrows[i].borrowedAmountSf.toNat) :
    (o.repay k a).commit = .ok (o.settleBorrow i left) := by
  rcases repay_found (BitVec.lt_def.mpr hpos) (okOr_eq_ok.mp hi) with ⟨hlt, -⟩ |
    ⟨left', hleft', hrun⟩
  · omega
  · have hsame : left' = left := BitVec.eq_of_toNat_eq (by omega)
    rw [hrun, hsame]
    exact commit_ok _

theorem Tidy.repay_borrow {a c : U128} (h : o.Tidy) (hk : k ≠ default)
    (hborrow : (o.borrow k a c).commit = .ok o') (htidy : o'.Tidy) :
    (o'.repay k a).commit = .ok o := by
  obtain ⟨hpos, ⟨i, d, hi, hd, rfl⟩ | ⟨i, d, -, hfree, -, hd, rfl⟩⟩ := borrow_ok hk hborrow
  · -- the debt that was there is there again
    have hdebt := (h.slots.2 i).1 (borrow_live hk hi)
    have hself : (o.setBorrow i { o.borrows[i] with borrowedAmountSf := d }).borrows[i] =
        { o.borrows[i] with borrowedAmountSf := d } := by simp
    have hfound := htidy.findBorrow_eq_ok hk (i := i) (by rw [hself]; exact hi)
    rw [repay_settles o.borrows[i].borrowedAmountSf hpos hfound
      (by rw [hself]; exact hd.symm), settleBorrow, if_neg (by rw [lt_rateScale]; omega), hself,
      setBorrow_setBorrow, setBorrow_self]
  · -- the slot that was opened is free again, and blank
    have hblank := (h.slots.2 i).2 hfree
    have hself := openedBorrow_borrows_self (o := o) (i := i) (k := k) (c := c) (a := d)
    have hfound := htidy.findBorrow_eq_ok hk (i := i) (by rw [hself]; rfl)
    have hcount : saturatingSub (saturatingAdd o.borrowsCount 1) 1 = o.borrowsCount := by
      apply BitVec.eq_of_toNat_eq
      rw [toNat_count_pred, toNat_count_succ h.borrowsCount_le]
      rfl
    have hzero : (0 : U128).toNat = 0 := rfl
    have hborrows : (o.borrows.set i { ObligationLiquidity.init k c with
        borrowedAmountSf := d } i.isLt).set i default i.isLt = o.borrows := by
      rw [Vector.set_set, ← hblank, getElem_slot, Vector.set_getElem_self]
    rw [repay_settles 0 hpos hfound (by rw [hself, hzero, Nat.zero_add]; exact hd.symm),
      settleBorrow, if_pos (by decide)]
    show Except.ok { o with
      borrows := (o.borrows.set i { ObligationLiquidity.init k c with
        borrowedAmountSf := d } i.isLt).set i default i.isLt
      borrowsCount := saturatingSub (saturatingAdd o.borrowsCount 1) 1 } = .ok o
    rw [hborrows, hcount]

/-- A borrow leaves its slot at the index it accrued to. -/
theorem borrow_at_index {o₁ : Obligation} {a c : U128} (hk : k ≠ default)
    (hacc : o.accrueExisting k c = .ok o₁) (hborrow : (o₁.borrow k a c).commit = .ok o') :
    ∃ i, o'.findBorrow k = .ok i ∧ o'.borrows[i].cumulativeBorrowRateSf = c := by
  unfold Obligation.accrueExisting at hacc
  rcases o.findBorrow_cases k with ⟨i, hf⟩ | ⟨hf, hnew⟩
  · rw [hf] at hacc
    obtain ⟨hfound, hrate⟩ := accrueInterest_found hk hf hacc
    obtain ⟨d, -, rfl⟩ := borrow_ok_of_found hk hfound hborrow
    refine ⟨i, findBorrow_setBorrow hfound (Obligation.findBorrow_eq_ok.mp hfound).1, ?_⟩
    rw [setBorrow_borrows, getElem_set_fin_self]
    exact hrate
  · rw [hf] at hacc
    cases hacc
    obtain ⟨i, hfound, hrate, -⟩ := borrow_ok_of_new hk hnew hborrow
    exact ⟨i, hfound, hrate⟩

end Obligation

namespace Ledger

variable {market : LendingMarket} {clock : Clock} {key : Pubkey} {r r' : Reserve}
  {o o' : Obligation} {a : U64}

/-- What a borrow and its repayment in the same slot come to: interest, on either side. -/
theorem repay_borrow (ht : o.Tidy) (hkey : key ≠ default)
    (h : borrow market clock key r o a = .ok (r', o')) :
    ∃ r₁ o₁, r.accrueInterest clock.slot = .ok r₁ ∧
      o.accrueExisting key r₁.liquidity.cumulativeBorrowRateSf = .ok o₁ ∧
      repay clock key r' o' a = .ok (r₁, o₁) := by
  obtain ⟨hpositive, hactive⟩ : a > 0 ∧ r.config.isActive = true := by
    simp only [borrow, bind_eq_ok, require_eq_ok, exists_const] at h
    exact ⟨h.2.1, h.2.2.1⟩
  have hborrows := borrow_ok h
  obtain ⟨r₁, o₁, hacc, hbor, hexist, hcall⟩ := hborrows.steps
  have hterms := Reserve.keepsTerms_of_borrow hbor
  have haccrues := Reserve.accrues_of_ok hacc
  rw [hterms.rate] at hexist hcall
  -- the second accrual of the slot finds nothing to do, on either side
  have hcurrent : r'.accrueInterest clock.slot = .ok r' := by
    apply Reserve.accrueInterest_current
    rw [hterms.lastUpdateSlot]
    exact haccrues.slot_le
  obtain ⟨i, hfound, hindex⟩ := Obligation.borrow_at_index hkey hexist hcall
  have hstill := Obligation.accrueInterest_same hindex
  have ht₁ : o₁.Tidy := (ht.pays_nil.accrueExisting hexist).tidy
  have ht' : o'.Tidy := (pays_borrow ht hkey hborrows).tidy
  refine ⟨r₁, o₁, hacc, hexist, ?_⟩
  have hactive' : r'.config.isActive = true := by
    rw [hterms.config, haccrues.config]
    exact hactive
  simp only [repay, require_pos hpositive, require_pos hactive', ok_bind, hcurrent,
    Reserve.repay_borrow hbor, hterms.rate, hfound, hstill,
    ht₁.repay_borrow hkey hcall ht']
  rfl

end Ledger

end VeilVault
