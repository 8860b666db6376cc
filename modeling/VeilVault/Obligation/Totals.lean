/-
# VeilVault.Obligation.Totals — how much of one reserve's collateral an obligation holds.

The total is over the slots under the reserve's key, whatever their order and whatever the counter
says.  Each method changes the total of its own key by its own amount and no other total, and none
changes whose obligation it is.
-/
import VeilVault.Obligation.Methods

namespace VeilVault

open Kit Kit.Outcome

namespace Obligation

variable {o o' : Obligation} {k x : Pubkey} {a : U64}

/-- The deposited amounts of the slots under one reserve. -/
def deposited (o : Obligation) (k : Pubkey) : ℕ :=
  depositLayout.totalAt (fun c => c.depositedAmount.toNat) o.deposits k

theorem deposited_congr (h : o'.deposits = o.deposits) : o'.deposited x = o.deposited x := by
  rw [deposited, deposited, h]

theorem deposited_init (owner market : Pubkey) (hx : x ≠ default) :
    (init owner market).deposited x = 0 := by
  rw [deposited, Layout.totalAt]
  refine Finset.sum_eq_zero fun i _ => if_neg fun hkey => hx ?_
  rw [← hkey]
  have hfree : ∀ i : Fin maxDepositsCountInReserve,
      depositLayout.key (Vector.replicate maxDepositsCountInReserve default)[i] = default := by
    decide
  exact hfree i

theorem deposited_congr_slots (h : ∀ i : Fin maxDepositsCountInReserve,
    o'.deposits[i].depositReserve = o.deposits[i].depositReserve ∧
      o'.deposits[i].depositedAmount = o.deposits[i].depositedAmount) (x : Pubkey) :
    o'.deposited x = o.deposited x :=
  depositLayout.totalAt_congr fun i => ⟨(h i).1, fun _ => congrArg BitVec.toNat (h i).2⟩

theorem deposited_setDeposit (i : Fin maxDepositsCountInReserve) (c : ObligationCollateral)
    (x : Pubkey) : (o.setDeposit i c).deposited x +
        (if o.deposits[i].depositReserve = x then o.deposits[i].depositedAmount.toNat else 0) =
      o.deposited x + (if c.depositReserve = x then c.depositedAmount.toNat else 0) :=
  depositLayout.totalAt_set _ o.deposits i c x

theorem deposited_deposit (hk : k ≠ default) (h : (o.deposit k a).commit = .ok o')
    (hx : x ≠ default) : o'.deposited x = o.deposited x + (if x = k then a.toNat else 0) := by
  obtain ⟨-, ⟨i, d, rfl, hd, rfl⟩ | ⟨i, hfree, rfl⟩⟩ := deposit_ok hk h
  · have hset := o.deposited_setDeposit i { o.deposits[i] with depositedAmount := d } x
    simp only [eq_comm (a := x)]
    by_cases hkx : o.deposits[i].depositReserve = x
    · simp only [if_pos hkx] at hset ⊢
      omega
    · simp only [if_neg hkx] at hset ⊢
      omega
  · -- the slot was free, so it counted for no reserve
    have hset := o.deposited_setDeposit i
      { ObligationCollateral.init k with depositedAmount := a } x
    have hkey : ¬ o.deposits[i].depositReserve = x := fun he => hfree fun hd => hx (he ▸ hd)
    rw [if_neg hkey, Nat.add_zero] at hset
    simp only [eq_comm (a := x)]
    exact hset

theorem deposited_withdraw (h : (o.withdraw k a).commit = .ok o') (hx : x ≠ default) :
    o'.deposited x + (if x = k then a.toNat else 0) = o.deposited x := by
  obtain ⟨-, i, hf, hcase⟩ := withdraw_ok h
  have hi := (findDeposit_eq_ok.mp hf).1
  have hset (c : ObligationCollateral) := o.deposited_setDeposit i c x
  simp only [eq_comm (a := x)]
  rcases hcase with ⟨hall, rfl⟩ | ⟨left, -, hleft, rfl⟩
  · have hcleared := hset default
    have hkey : ¬ (default : ObligationCollateral).depositReserve = x := Ne.symm hx
    rw [if_neg hkey, Nat.add_zero, hi, hall] at hcleared
    exact hcleared
  · subst hi
    have hless := hset { o.deposits[i] with depositedAmount := left }
    by_cases hkx : o.deposits[i].depositReserve = x
    · simp only [if_pos hkx] at hless ⊢
      omega
    · simp only [if_neg hkx] at hless ⊢
      omega

/-! ## Whose obligation -/

/-- Whose obligation it is, and in which market. -/
structure SameHolder (o o' : Obligation) : Prop where
  owner : o'.owner = o.owner
  lendingMarket : o'.lendingMarket = o.lendingMarket

theorem SameHolder.refl (o : Obligation) : o.SameHolder o := ⟨rfl, rfl⟩

theorem SameHolder.trans {o'' : Obligation} (h : o.SameHolder o') (h' : o'.SameHolder o'') :
    o.SameHolder o'' := ⟨h'.owner.trans h.owner, h'.lendingMarket.trans h.lendingMarket⟩

theorem sameHolder_deposit (hk : k ≠ default) (h : (o.deposit k a).commit = .ok o') :
    o.SameHolder o' := by
  obtain ⟨-, ⟨i, d, -, -, rfl⟩ | ⟨i, -, rfl⟩⟩ := deposit_ok hk h
  · exact ⟨rfl, rfl⟩
  · exact ⟨rfl, rfl⟩

theorem sameHolder_withdraw (h : (o.withdraw k a).commit = .ok o') : o.SameHolder o' := by
  obtain ⟨-, i, -, ⟨-, rfl⟩ | ⟨left, -, -, rfl⟩⟩ := withdraw_ok h
  · exact ⟨rfl, rfl⟩
  · exact ⟨rfl, rfl⟩

/-! ## The methods that leave debts alone -/

theorem borrows_deposit {a : U64} (hk : k ≠ default) (h : (o.deposit k a).commit = .ok o') :
    o'.borrows = o.borrows := by
  obtain ⟨-, ⟨i, d, -, -, rfl⟩ | ⟨i, -, rfl⟩⟩ := deposit_ok hk h
  · rfl
  · rfl

theorem borrows_withdraw {a : U64} (h : (o.withdraw k a).commit = .ok o') :
    o'.borrows = o.borrows := by
  obtain ⟨-, i, -, ⟨-, rfl⟩ | ⟨left, -, -, rfl⟩⟩ := withdraw_ok h
  · rfl
  · rfl

/-- A withdrawal takes its amount off its own slot, whether that closes the slot or not. -/
theorem depositSlots_withdraw {a : U64} {j : Fin maxDepositsCountInReserve}
    (hj : o.findDeposit k = .ok j) (h : (o.withdraw k a).commit = .ok o') :
    o'.deposits[j].depositedAmount.toNat + a.toNat = o.deposits[j].depositedAmount.toNat ∧
      ∀ x, x ≠ j → o'.deposits[x] = o.deposits[x] := by
  obtain ⟨-, i, hi, hcase⟩ := withdraw_ok h
  obtain rfl : i = j := Except.ok.inj (hi.symm.trans hj)
  rcases hcase with ⟨hall, rfl⟩ | ⟨left, -, hleft, rfl⟩
  · rw [clearedDeposit, setDeposit_deposits]
    refine ⟨?_, fun x hx => getElem_set_fin_ne _ _ (Ne.symm hx)⟩
    rw [getElem_set_fin_self, hall]
    exact Nat.zero_add _
  · rw [setDeposit_deposits]
    refine ⟨?_, fun x hx => getElem_set_fin_ne _ _ (Ne.symm hx)⟩
    rw [getElem_set_fin_self]
    exact hleft

/-! ## The methods that leave deposits alone -/

theorem frame_borrow {a c : U128} (hk : k ≠ default) (h : (o.borrow k a c).commit = .ok o') :
    o.SameHolder o' ∧ o'.deposits = o.deposits := by
  obtain ⟨-, ⟨i, d, -, -, rfl⟩ | ⟨i, d, -, -, -, -, rfl⟩⟩ := borrow_ok hk h
  · exact ⟨⟨rfl, rfl⟩, rfl⟩
  · exact ⟨⟨rfl, rfl⟩, rfl⟩

theorem frame_repay {a : U128} (h : (o.repay k a).commit = .ok o') :
    o.SameHolder o' ∧ o'.deposits = o.deposits := by
  obtain ⟨-, i, -, left, -, ⟨-, rfl⟩ | rfl⟩ := repay_ok h
  · exact ⟨⟨rfl, rfl⟩, rfl⟩
  · exact ⟨⟨rfl, rfl⟩, rfl⟩

theorem frame_accrueInterest {i : Fin maxBorrowCountInReserve} {c : U128}
    (h : (o.accrueInterest i c).commit = .ok o') :
    o.SameHolder o' ∧ o'.deposits = o.deposits := by
  rcases accrueInterest_ok h with rfl | ⟨-, -, -, d, -, rfl⟩
  · exact ⟨.refl _, rfl⟩
  · exact ⟨⟨rfl, rfl⟩, rfl⟩

end Obligation

end VeilVault
