/-
# VeilVault.Obligation.Units — how much of one reserve an obligation owes, in whole units.

The debts of the slots under one reserve, each without what is below one unit.  While the slots
stand at the index they are accrued to, accruing moves nothing, borrowing and repaying move the
total by their own amount, and what a cleared slot forgives is less than a unit.
-/
import VeilVault.Obligation.Totals

namespace VeilVault

open Kit Kit.Outcome

namespace Obligation

variable {o o' : Obligation} {k x : Pubkey} {i : Fin maxBorrowCountInReserve}

/-- `borrowed_amount_sf / RATE_SCALE`, over the slots under one reserve. -/
def owed (o : Obligation) (k : Pubkey) : ℕ :=
  borrowLayout.totalAt (fun b => b.borrowedAmountSf.toNat / 10 ^ 12) o.borrows k

/-- Every slot under the reserve stands at this index. -/
def StandsAt (o : Obligation) (k : Pubkey) (index : Option U128) : Prop :=
  ∀ i : Fin maxBorrowCountInReserve, o.borrows[i].borrowReserve = k →
    some o.borrows[i].cumulativeBorrowRateSf = index

theorem owed_congr (h : o'.borrows = o.borrows) : o'.owed x = o.owed x := by
  rw [owed, owed, h]

theorem owed_congr_slots (h : ∀ i : Fin maxBorrowCountInReserve,
    o'.borrows[i].borrowReserve = o.borrows[i].borrowReserve ∧
      (o.borrows[i].borrowReserve = x →
        o'.borrows[i].borrowedAmountSf = o.borrows[i].borrowedAmountSf)) : o'.owed x = o.owed x :=
  borrowLayout.totalAt_congr fun i =>
    ⟨(h i).1, fun hkey => congrArg (·.toNat / 10 ^ 12) ((h i).2 hkey)⟩

theorem StandsAt.congr {index : Option U128} (h : o.StandsAt x index)
    (hb : o'.borrows = o.borrows) : o'.StandsAt x index := by
  intro i
  rw [hb]
  exact h i

theorem owed_setBorrow (i : Fin maxBorrowCountInReserve) (b : ObligationLiquidity) (x : Pubkey) :
    (o.setBorrow i b).owed x +
        (if o.borrows[i].borrowReserve = x then o.borrows[i].borrowedAmountSf.toNat / 10 ^ 12
          else 0) =
      o.owed x + (if b.borrowReserve = x then b.borrowedAmountSf.toNat / 10 ^ 12 else 0) :=
  borrowLayout.totalAt_set _ o.borrows i b x

theorem StandsAt.setBorrow {index : Option U128} {b : ObligationLiquidity}
    (h : o.StandsAt x index)
    (hb : b.borrowReserve = x → some b.cumulativeBorrowRateSf = index) :
    (o.setBorrow i b).StandsAt x index := by
  let Stands : ObligationLiquidity → Prop := fun b =>
    b.borrowReserve = x → some b.cumulativeBorrowRateSf = index
  exact forall_set (P := Stands) h hb

/-! ## Nothing deposited, nothing owed -/

theorem deposited_eq_zero (hx : x ≠ default)
    (h : ∀ i : Fin maxDepositsCountInReserve, ¬ depositLayout.Live o.deposits[i]) :
    o.deposited x = 0 := by
  rw [deposited, Layout.totalAt]
  refine Finset.sum_eq_zero fun i _ => if_neg fun hkey => h i ?_
  exact deposit_live hx hkey

theorem owed_eq_zero (hx : x ≠ default)
    (h : ∀ i : Fin maxBorrowCountInReserve, ¬ borrowLayout.Live o.borrows[i]) :
    o.owed x = 0 := by
  rw [owed, Layout.totalAt]
  refine Finset.sum_eq_zero fun i _ => if_neg fun hkey => h i ?_
  exact borrow_live hx hkey

theorem standsAt_of_free {index : Option U128} (hx : x ≠ default)
    (h : ∀ i : Fin maxBorrowCountInReserve, ¬ borrowLayout.Live o.borrows[i]) :
    o.StandsAt x index := by
  intro i hi
  exact absurd (borrow_live hx hi) (h i)

/-! ## The methods -/

/-- What a method leaves: the index, and the total up to what was added and removed. -/
structure Moves (o o' : Obligation) (x : Pubkey) (index : Option U128) (added removed : ℕ) :
    Prop where
  standsAt : o'.StandsAt x index
  owed : o'.owed x + removed = o.owed x + added

variable {index : Option U128}

theorem Moves.trans {o'' : Obligation} {a a' r r' : ℕ} (h : o.Moves o' x index a r)
    (h' : o'.Moves o'' x index a' r') : o.Moves o'' x index (a + a') (r + r') := by
  refine ⟨h'.standsAt, ?_⟩
  have hfirst := h.owed
  have hsecond := h'.owed
  omega

theorem StandsAt.moves_self (h : o.StandsAt x index) : o.Moves o x index 0 0 := ⟨h, rfl⟩

theorem StandsAt.moves_of_borrows (h : o.StandsAt x index) (hb : o'.borrows = o.borrows) :
    o.Moves o' x index 0 0 := ⟨h.congr hb, congrArg (· + 0) (owed_congr hb)⟩

/-- Accruing a slot of the reserve to the index it stands at changes nothing. -/
theorem StandsAt.accrueInterest {c : U128} (h : o.StandsAt x index)
    (hc : o.borrows[i].borrowReserve = x → some c = index)
    (hacc : (o.accrueInterest i c).commit = .ok o') : o.Moves o' x index 0 0 := by
  rcases accrueInterest_ok hacc with rfl | ⟨-, hlt, -, d, -, rfl⟩
  · exact h.moves_self
  · have hother : ¬ o.borrows[i].borrowReserve = x := by
      intro hkey
      have hindex := Option.some.inj ((h i hkey).trans (hc hkey).symm)
      rw [hindex] at hlt
      exact Nat.lt_irrefl _ hlt
    have hset := o.owed_setBorrow i { o.borrows[i] with
      borrowedAmountSf := d, cumulativeBorrowRateSf := c } x
    constructor
    · exact h.setBorrow fun hkey => absurd hkey hother
    · rw [if_neg hother] at hset
      exact hset.trans (congrArg (o.owed x + ·) (if_neg hother))

theorem StandsAt.borrow {a c : U128} (h : o.StandsAt x index) (hk : k ≠ default)
    (hx : x ≠ default) (hc : k = x → some c = index) (hbor : (o.borrow k a c).commit = .ok o') :
    o.Moves o' x index (if x = k then a.toNat else 0) 0 := by
  simp only [eq_comm (a := x)]
  obtain ⟨-, ⟨i, d, hi, hd, rfl⟩ | ⟨i, d, -, hfree, -, hd, rfl⟩⟩ := borrow_ok hk hbor
  · have hset := o.owed_setBorrow i { o.borrows[i] with borrowedAmountSf := d } x
    refine ⟨h.setBorrow fun hkey => h i hkey, ?_⟩
    rw [hi, hd, Nat.add_mul_div_right _ _ (by decide)] at hset
    by_cases hkx : k = x
    · simp only [if_pos hkx] at hset ⊢
      omega
    · simp only [if_neg hkx] at hset ⊢
      exact hset
  · -- the slot was free, so it counted for no reserve
    have hset := o.owed_setBorrow i { ObligationLiquidity.init k c with borrowedAmountSf := d } x
    have hkey : ¬ o.borrows[i].borrowReserve = x := fun he => hfree fun hd => hx (he ▸ hd)
    rw [if_neg hkey, hd, Nat.mul_div_cancel _ (by decide)] at hset
    exact ⟨h.setBorrow fun hkx => hc hkx, hset⟩

/-- What a cleared slot still held is below one unit. -/
theorem StandsAt.repay {a : U128} (h : o.StandsAt x index) (hx : x ≠ default)
    (hrep : (o.repay k a).commit = .ok o') :
    o.Moves o' x index 0 (if x = k then a.toNat else 0) := by
  simp only [eq_comm (a := x)]
  obtain ⟨-, i, hf, left, hleft, hcase⟩ := repay_ok hrep
  have hi := (findBorrow_eq_ok.mp hf).1
  have hsplit : o.borrows[i].borrowedAmountSf.toNat / 10 ^ 12 =
      left.toNat / 10 ^ 12 + a.toNat := by
    rw [← hleft, Nat.add_mul_div_right _ _ (by decide)]
  rcases hcase with ⟨hdust, rfl⟩ | rfl
  · have hset := o.owed_setBorrow i default x
    have hcleared : ¬ (default : ObligationLiquidity).borrowReserve = x := Ne.symm hx
    refine ⟨h.setBorrow fun hkey => absurd hkey hcleared, ?_⟩
    rw [if_neg hcleared, hi, hsplit, Nat.div_eq_of_lt hdust, Nat.zero_add] at hset
    exact hset
  · have hset := o.owed_setBorrow i { o.borrows[i] with borrowedAmountSf := left } x
    refine ⟨h.setBorrow fun hkey => h i hkey, ?_⟩
    rw [hi, hsplit] at hset
    by_cases hkx : k = x
    · simp only [if_pos hkx] at hset ⊢
      omega
    · simp only [if_neg hkx] at hset ⊢
      exact hset

theorem StandsAt.deposit {a : U64} (h : o.StandsAt x index) (hk : k ≠ default)
    (hdep : (o.deposit k a).commit = .ok o') : o.Moves o' x index 0 0 :=
  h.moves_of_borrows (borrows_deposit hk hdep)

theorem StandsAt.withdraw {a : U64} (h : o.StandsAt x index)
    (hwd : (o.withdraw k a).commit = .ok o') : o.Moves o' x index 0 0 :=
  h.moves_of_borrows (borrows_withdraw hwd)

end Obligation

end VeilVault
