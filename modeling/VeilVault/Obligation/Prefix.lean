/-
# VeilVault.Obligation.Prefix — do the readers of `[..count]` see every live slot?

`health_factor`, `refresh_obligation`, `borrow` and `private_borrow` iterate over the first `count`
slots of a table.  `withdraw` and `repay` clear a slot in place and lower the counter, so a slot
cleared below a live one pushes the last live slot out of every reader's sight.

The invariant is `Packed`: the live slots *are* the counted prefix.  A call keeps it unless it
empties a slot that is not the last live one, and then the very next state already hides a slot
(`Packed.not_counted_clear`).  Hence the exact condition over runs, `everySlotCounted_iff`.
-/
import VeilVault.Kit.Run
import VeilVault.Obligation.Calls

namespace VeilVault

open Kit

namespace Obligation

variable {o : Obligation}

/-! ## The claim and the condition -/

/-- Every live slot is below its counter, and the two prefix readers return every live slot. -/
def EverySlotCounted (o : Obligation) : Prop :=
  depositLayout.Counted o.deposits o.depositsCount.toNat ∧
  borrowLayout.Counted o.borrows o.borrowsCount.toNat ∧
  (∃ cs, o.countedDeposits = .ok cs ∧
    cs.filter (·.isActive) = o.deposits.toList.filter (·.isActive)) ∧
  (∃ bs, o.countedBorrows = .ok bs ∧
    bs.filter (·.isActive) = o.borrows.toList.filter (·.isActive))

/-- A slot the call empties is the last live one of its table. -/
def EmptiesLast (o : Obligation) (c : Call) : Prop :=
  (∀ i, o.EmptiesDeposit c i → i.val + 1 = o.depositsCount.toNat) ∧
  (∀ i, o.EmptiesBorrow c i → i.val + 1 = o.borrowsCount.toNat)

/-- The live slots are exactly the counted ones, under distinct keys. -/
structure PackedTables (o : Obligation) : Prop where
  deposits : depositLayout.Packed o.deposits o.depositsCount.toNat
  borrows : borrowLayout.Packed o.borrows o.borrowsCount.toNat
  depositsCount_le : o.depositsCount.toNat ≤ 8
  borrowsCount_le : o.borrowsCount.toNat ≤ 8
  distinctDeposits : depositLayout.Distinct o.deposits
  distinctBorrows : borrowLayout.Distinct o.borrows

/-! ## Readers of a counted prefix -/

/-- Dropping free slots from the end of a table loses no live one. -/
theorem filter_take_of_counted {σ : Type} {n c : ℕ} (v : Vector σ n) (p : σ → Bool)
    (h : ∀ i : Fin n, p v[i] = true → i.val < c) :
    (v.toList.take c).filter p = v.toList.filter p := by
  have hdrop : (v.toList.drop c).filter p = [] := by
    rw [List.filter_eq_nil_iff]
    intro x hx hpx
    obtain ⟨m, hm, rfl⟩ := List.mem_iff_getElem.mp hx
    rw [List.length_drop, Vector.length_toList] at hm
    rw [List.getElem_drop, Vector.getElem_toList] at hpx
    have : c + m < c := h ⟨c + m, by omega⟩ hpx
    omega
  conv_rhs => rw [← List.take_append_drop c v.toList, List.filter_append, hdrop, List.append_nil]

theorem countedDeposits_of_le (h : o.depositsCount.toNat ≤ 8) :
    o.countedDeposits = .ok (o.deposits.toList.take o.depositsCount.toNat) := if_pos h

theorem countedBorrows_of_le (h : o.borrowsCount.toNat ≤ 8) :
    o.countedBorrows = .ok (o.borrows.toList.take o.borrowsCount.toNat) := if_pos h

theorem PackedTables.everySlotCounted (h : o.PackedTables) : o.EverySlotCounted := by
  refine ⟨h.deposits.counted, h.borrows.counted,
    ⟨_, countedDeposits_of_le h.depositsCount_le, ?_⟩,
    ⟨_, countedBorrows_of_le h.borrowsCount_le, ?_⟩⟩
  · exact filter_take_of_counted _ _ fun i hi => h.deposits.counted i (depositLayout_live.mpr hi)
  · exact filter_take_of_counted _ _ fun i hi => h.borrows.counted i (borrowLayout_live.mpr hi)

/-! ## One call -/

theorem packedTables_init (owner market : Pubkey) : (init owner market).PackedTables := by
  have hd (i : Fin maxDepositsCountInReserve) :
      ¬ depositLayout.Live (init owner market).deposits[i] := by
    rw [show (init owner market).deposits[i] = default from Vector.getElem_replicate i.isLt]
    exact depositLayout_default
  have hb (i : Fin maxBorrowCountInReserve) :
      ¬ borrowLayout.Live (init owner market).borrows[i] := by
    rw [show (init owner market).borrows[i] = default from Vector.getElem_replicate i.isLt]
    exact borrowLayout_default
  exact {
    deposits := fun i => ⟨fun h => absurd h (hd i), fun h => absurd h (Nat.not_lt_zero _)⟩
    borrows := fun i => ⟨fun h => absurd h (hb i), fun h => absurd h (Nat.not_lt_zero _)⟩
    depositsCount_le := Nat.zero_le 8
    borrowsCount_le := Nat.zero_le 8
    distinctDeposits := fun i _ h => absurd h (hd i)
    distinctBorrows := fun i _ h => absurd h (hb i) }

theorem packedTables_after (o : Obligation) (c : Call) (h : o.PackedTables)
    (hlast : o.EmptiesLast c) : (o.after c).PackedTables := by
  have hd := after_deposits o c h.depositsCount_le
  have hb := after_borrows o c h.borrowsCount_le
  exact {
    deposits := hd.packed h.deposits hlast.1
    borrows := hb.packed h.borrows hlast.2
    depositsCount_le := hd.count_le h.deposits h.depositsCount_le
    borrowsCount_le := hb.count_le h.borrows h.borrowsCount_le
    distinctDeposits := hd.distinct h.distinctDeposits
    distinctBorrows := hb.distinct h.distinctBorrows }

/-- A call that empties a deposit slot does nothing else. -/
theorem after_emptiesDeposit {c : Call} {i : Fin maxDepositsCountInReserve}
    (hd : depositLayout.Distinct o.deposits) (h : o.EmptiesDeposit c i) :
    depositLayout.Live o.deposits[i] ∧ o.after c = o.clearedDeposit i := by
  cases c with
  | withdraw k a =>
      obtain ⟨ha, hi, hamt⟩ := h
      have hlive := deposit_live k.2 hi
      have hsame (j : Fin maxDepositsCountInReserve) (hj : o.deposits[j].depositReserve = k.1) :
          i = j := hd i j hlive (hi.trans hj.symm)
      refine ⟨hlive, ?_⟩
      have hspec := withdraw_spec o k.1 a
      simp only [after, call]
      generalize o.withdraw k.1 a = r at hspec
      cases hspec with
      | zero h0 => omega
      | missing _ hnew => exact absurd hi (hnew i)
      | tooMuch j _ hj h =>
          obtain rfl := hsame j hj
          omega
      | cleared j _ hj h =>
          obtain rfl := hsame j hj
          rfl
      | reduced j _ hj left hleft h =>
          obtain rfl := hsame j hj
          omega
  | _ => exact h.elim

/-- A call that empties a borrow slot does nothing else. -/
theorem after_emptiesBorrow {c : Call} {i : Fin maxBorrowCountInReserve}
    (hd : borrowLayout.Distinct o.borrows) (h : o.EmptiesBorrow c i) :
    borrowLayout.Live o.borrows[i] ∧ o.after c = o.clearedBorrow i := by
  cases c with
  | repay k a =>
      obtain ⟨ha, hi, hle, hlt⟩ := h
      have hlive := borrow_live k.2 hi
      have hsame (j : Fin maxBorrowCountInReserve) (hj : o.borrows[j].borrowReserve = k.1) :
          i = j := hd i j hlive (hi.trans hj.symm)
      refine ⟨hlive, ?_⟩
      have hspec := repay_spec o k.1 a
      simp only [after, call]
      generalize o.repay k.1 a = r at hspec
      cases hspec with
      | zero h0 => omega
      | missing _ hnew => exact absurd hi (hnew i)
      | tooMuch j _ hj e h =>
          obtain rfl := hsame j hj
          omega
      | cleared j _ hj _ h =>
          obtain rfl := hsame j hj
          rfl
      | reduced j _ hj left hleft h =>
          obtain rfl := hsame j hj
          omega
  | _ => exact h.elim

/-- Emptying any other slot hides the last live one at once. -/
theorem not_everySlotCounted_after (o : Obligation) (c : Call) (h : o.PackedTables)
    (hnot : ¬ o.EmptiesLast c) : ¬ (o.after c).EverySlotCounted := by
  rintro ⟨hcd, hcb, -, -⟩
  refine hnot ⟨fun i hi => ?_, fun i hi => ?_⟩
  · by_contra hne
    obtain ⟨hlive, hafter⟩ := after_emptiesDeposit h.distinctDeposits hi
    rw [hafter] at hcd
    refine h.deposits.not_counted_clear (s := default) h.depositsCount_le hlive hne ?_
    rw [← toNat_count_pred]
    exact hcd
  · by_contra hne
    obtain ⟨hlive, hafter⟩ := after_emptiesBorrow h.distinctBorrows hi
    rw [hafter] at hcb
    refine h.borrows.not_counted_clear (s := default) h.borrowsCount_le hlive hne ?_
    rw [← toNat_count_pred]
    exact hcb

/-! ## Runs -/

/-- Along a run from a new obligation every live slot is counted, exactly when each call that
empties a slot empties the last live one. -/
theorem everySlotCounted_iff (owner market : Pubkey) (calls : List Call) :
    Always after EverySlotCounted (init owner market) calls ↔
      EachStep after EmptiesLast (init owner market) calls :=
  always_iff_eachStep (fun _ => PackedTables.everySlotCounted) packedTables_after
    not_everySlotCounted_after calls _ (packedTables_init owner market)

/-- Two deposits, then the first one withdrawn in full: the second is live and uncounted. -/
theorem not_always_everySlotCounted :
    ¬ Always after EverySlotCounted (init (.key 1) (.key 2))
      [.deposit ⟨.key 3, by decide⟩ 5, .deposit ⟨.key 4, by decide⟩ 7,
        .withdraw ⟨.key 3, by decide⟩ 5] := by
  have hhidden : ∀ o : Obligation, o.depositsCount = 1 → o.deposits[1].isActive = true →
      ¬ o.EverySlotCounted := by
    rintro o hc hact ⟨h, -⟩
    have := h 1 (depositLayout_live.mpr hact)
    rw [hc] at this
    exact absurd this (by decide)
  rintro ⟨-, -, -, h⟩
  exact hhidden _ (by decide +kernel) (by decide +kernel) h

end Obligation

end VeilVault
