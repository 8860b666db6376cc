/-
# VeilVault.Obligation.Shares — how much of one reserve's index an obligation owes.

The share of an obligation is the sum of `debt / index` over its slots under the reserve's key.
Accruing a slot never raises it, whatever the index is; borrowing and repaying `a` move it by
`a * RATE_SCALE` over the index of the slot, and clearing dust only lowers it.
-/
import Mathlib.Tactic.Linarith
import VeilVault.Kit.IndexedDebt
import VeilVault.Obligation.Totals

namespace VeilVault

open Kit Kit.Outcome

/-- The share of one slot. -/
def ObligationLiquidity.share (b : ObligationLiquidity) : ℚ :=
  Kit.share b.borrowedAmountSf.toNat b.cumulativeBorrowRateSf.toNat

namespace Obligation

variable {o o' : Obligation} {k x : Pubkey} {i : Fin maxBorrowCountInReserve}

/-- The shares of the slots under one reserve. -/
def shareAt (o : Obligation) (k : Pubkey) : ℚ :=
  borrowLayout.totalAt (·.share) o.borrows k

/-- The whole units owed under one reserve once every slot is brought to the index `c`. -/
def owedAt (o : Obligation) (k : Pubkey) (c : U128) : ℕ :=
  borrowLayout.totalAt (fun b => b.borrowedAmountSf.toNat * c.toNat /
    b.cumulativeBorrowRateSf.toNat / rateScale.toNat) o.borrows k

theorem shareAt_nonneg (o : Obligation) (k : Pubkey) : 0 ≤ o.shareAt k :=
  borrowLayout.totalAt_nonneg (fun _ => share_nonneg _ _) o.borrows k

theorem shareAt_init (owner market : Pubkey) (hx : x ≠ default) :
    (init owner market).shareAt x = 0 := by
  rw [shareAt, Layout.totalAt]
  refine Finset.sum_eq_zero fun i _ => if_neg fun hkey => hx ?_
  rw [← hkey]
  have hfree : ∀ i : Fin maxBorrowCountInReserve,
      borrowLayout.key (Vector.replicate maxBorrowCountInReserve default)[i] = default := by
    decide
  exact hfree i

theorem shareAt_setBorrow (i : Fin maxBorrowCountInReserve) (b : ObligationLiquidity)
    (x : Pubkey) : (o.setBorrow i b).shareAt x +
        (if o.borrows[i].borrowReserve = x then o.borrows[i].share else 0) =
      o.shareAt x + (if b.borrowReserve = x then b.share else 0) :=
  borrowLayout.totalAt_set _ o.borrows i b x

/-- Rewriting a slot under its own key, with a share that is `s` lower. -/
theorem shareAt_setBorrow_le {b : ObligationLiquidity} {s : ℚ}
    (hkey : b.borrowReserve = o.borrows[i].borrowReserve) (hs : b.share + s ≤ o.borrows[i].share) :
    (o.setBorrow i b).shareAt x + (if o.borrows[i].borrowReserve = x then s else 0) ≤
      o.shareAt x := by
  have hset := o.shareAt_setBorrow i b x
  rw [hkey] at hset
  split at hset
  case isTrue hx =>
    rw [if_pos hx]
    linarith
  case isFalse hx =>
    rw [if_neg hx]
    linarith

/-- Slots that were grown or left alone lose no key and gain no share. -/
theorem shareAt_le_of_slots (h : ∀ i : Fin maxBorrowCountInReserve,
    o'.borrows[i].borrowReserve = o.borrows[i].borrowReserve ∧
      o'.borrows[i].share ≤ o.borrows[i].share) : o'.shareAt x ≤ o.shareAt x :=
  borrowLayout.totalAt_le h x

theorem shareAt_accrueInterest {c : U128} (h : (o.accrueInterest i c).commit = .ok o') :
    o'.shareAt x ≤ o.shareAt x := by
  rcases accrueInterest_ok h with rfl | ⟨-, hlt, -, d, hd, rfl⟩
  · exact le_refl _
  · have hgrown : Kit.share d.toNat c.toNat + 0 ≤ o.borrows[i].share := by
      rw [add_zero, hd]
      exact share_grown (Nat.zero_lt_of_lt hlt)
    have hle := shareAt_setBorrow_le (x := x) (b := { o.borrows[i] with
      borrowedAmountSf := d, cumulativeBorrowRateSf := c }) rfl hgrown
    rw [ite_self, add_zero] at hle
    exact hle

/-- Depositing and withdrawing collateral leaves debts alone. -/
theorem shareAt_deposit {a : U64} (hk : k ≠ default) (h : (o.deposit k a).commit = .ok o') :
    o'.shareAt x = o.shareAt x := by
  obtain ⟨-, ⟨i, d, -, -, rfl⟩ | ⟨i, -, rfl⟩⟩ := deposit_ok hk h
  · rfl
  · rfl

theorem shareAt_withdraw {a : U64} (h : (o.withdraw k a).commit = .ok o') :
    o'.shareAt x = o.shareAt x := by
  obtain ⟨-, i, -, ⟨-, rfl⟩ | ⟨left, -, -, rfl⟩⟩ := withdraw_ok h
  · rfl
  · rfl

/-- What is owed at an index is at most the share of it. -/
theorem owedAt_le (o : Obligation) (k : Pubkey) (c : U128) :
    ((10 ^ 12 * o.owedAt k c : ℕ) : ℚ) ≤ o.shareAt k * c.toNat := by
  rw [owedAt, shareAt, Layout.totalAt, Layout.totalAt, Finset.mul_sum, Nat.cast_sum,
    Finset.sum_mul]
  refine Finset.sum_le_sum fun i _ => ?_
  split
  case isTrue =>
    have hfloor : 10 ^ 12 * (o.borrows[i].borrowedAmountSf.toNat * c.toNat /
        o.borrows[i].cumulativeBorrowRateSf.toNat / rateScale.toNat) ≤
          o.borrows[i].borrowedAmountSf.toNat * c.toNat /
            o.borrows[i].cumulativeBorrowRateSf.toNat := Nat.mul_div_le _ _
    exact (Nat.cast_le.mpr hfloor).trans (grown_le_share _ _ _)
  case isFalse => rw [Nat.mul_zero, Nat.cast_zero, zero_mul]

theorem shareAt_borrow {a c : U128} (hk : k ≠ default) (hx : x ≠ default)
    (hrate : ∀ i, o.findBorrow k = .ok i → o.borrows[i].cumulativeBorrowRateSf = c)
    (h : (o.borrow k a c).commit = .ok o') :
    o'.shareAt x = o.shareAt x + (if x = k then Kit.share (a.toNat * 10 ^ 12) c.toNat else 0) := by
  simp only [eq_comm (a := x)]
  rcases o.findBorrow_cases k with ⟨i, hf⟩ | ⟨-, hnew⟩
  · obtain ⟨d, hd, rfl⟩ := borrow_ok_of_found hk hf h
    have hset := o.shareAt_setBorrow i { o.borrows[i] with borrowedAmountSf := d } x
    have hshare : Kit.share d.toNat o.borrows[i].cumulativeBorrowRateSf.toNat =
        o.borrows[i].share + Kit.share (a.toNat * 10 ^ 12) c.toNat := by
      rw [hd, share_add, ← hrate i hf]
      rfl
    obtain rfl := (findBorrow_eq_ok.mp hf).1
    by_cases hkx : o.borrows[i].borrowReserve = x
    · simp only [if_pos hkx, ObligationLiquidity.share, hshare] at hset ⊢
      linarith
    · simp only [if_neg hkx] at hset ⊢
      linarith
  · obtain ⟨-, ⟨i, d, hi, -, -⟩ | ⟨i, d, -, hfree, -, hd, rfl⟩⟩ := borrow_ok hk h
    · exact absurd hi (hnew i)
    · have hset := o.shareAt_setBorrow i
        { ObligationLiquidity.init k c with borrowedAmountSf := d } x
      have hkey : ¬ o.borrows[i].borrowReserve = x := fun he => hfree fun hd => hx (he ▸ hd)
      rw [if_neg hkey, add_zero] at hset
      rw [← hd]
      exact hset

/-- The share repaid, at the index of the slot; what is left below one unit is cleared. -/
theorem shareAt_repay {a : U128} (hx : x ≠ default) (h : (o.repay k a).commit = .ok o') :
    ∃ i, o.findBorrow k = .ok i ∧ o'.shareAt x + (if x = k then
      Kit.share (a.toNat * 10 ^ 12) o.borrows[i].cumulativeBorrowRateSf.toNat else 0) ≤
        o.shareAt x := by
  obtain ⟨-, i, hf, left, hleft, hcase⟩ := repay_ok h
  refine ⟨i, hf, ?_⟩
  obtain rfl := (findBorrow_eq_ok.mp hf).1
  have hsplit : o.borrows[i].share =
      Kit.share left.toNat o.borrows[i].cumulativeBorrowRateSf.toNat +
        Kit.share (a.toNat * 10 ^ 12) o.borrows[i].cumulativeBorrowRateSf.toNat := by
    rw [← share_add, hleft]
    rfl
  simp only [eq_comm (a := x)]
  rcases hcase with ⟨-, rfl⟩ | rfl
  · have hset := o.shareAt_setBorrow i default x
    have hdust := share_nonneg left.toNat o.borrows[i].cumulativeBorrowRateSf.toNat
    have hkey : ¬ (default : ObligationLiquidity).borrowReserve = x := Ne.symm hx
    rw [if_neg hkey, add_zero] at hset
    show (o.setBorrow i default).shareAt x + _ ≤ _
    by_cases hkx : o.borrows[i].borrowReserve = x
    · rw [if_pos hkx] at hset ⊢
      linarith
    · rw [if_neg hkx] at hset ⊢
      exact hset.le
  · exact shareAt_setBorrow_le rfl hsplit.ge

end Obligation

end VeilVault
