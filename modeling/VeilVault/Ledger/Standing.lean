/-
# VeilVault.Ledger.Standing — debts that stand.

What a call leaves of a borrow slot it is not about.  Three relations between a slot and what became
of it bound it from below: `Stands k`, that a debt in the reserve `k` is still there and no
smaller; `Kept`, that a debt is still owed to the same reserve; `Settling`, that at most it was
settled.  Each call writes one slot (`slotwise_set`), so a relation holds of the call when it holds
of that slot.  A fourth relation bounds a debt from above: `Inflated`, that it grew no faster than
its index.

A slot in use owes at least one whole unit (`WholeDebts`): a repayment that leaves less clears the
slot.  A liquidation repays at most half of the whole units, so at least one of them is left.
-/
import VeilVault.Kit.IndexedDebt
import VeilVault.Ledger.Coherence

namespace VeilVault

open Kit Kit.Outcome

namespace ObligationLiquidity

variable {k : Pubkey} {b b' b'' : ObligationLiquidity}

/-- A slot of `k` stays one, owing no less, and no slot becomes one. -/
structure Stands (k : Pubkey) (b b' : ObligationLiquidity) : Prop where
  key : b'.borrowReserve = k ↔ b.borrowReserve = k
  debt : b.borrowReserve = k → b.borrowedAmountSf.toNat ≤ b'.borrowedAmountSf.toNat

/-- A slot in use stays in use, for the same reserve. -/
def Kept (b b' : ObligationLiquidity) : Prop :=
  borrowLayout.Live b → b'.borrowReserve = b.borrowReserve

/-- The slot is for the same reserve, or was freed. -/
def Settling (b b' : ObligationLiquidity) : Prop :=
  borrowLayout.Live b' → b'.borrowReserve = b.borrowReserve

/-- The slot is for the same reserve, and its debt did not grow faster than its index. -/
structure Inflated (b b' : ObligationLiquidity) : Prop where
  key : b'.borrowReserve = b.borrowReserve
  share_le : Kit.share b'.borrowedAmountSf.toNat b'.cumulativeBorrowRateSf.toNat ≤
    Kit.share b.borrowedAmountSf.toNat b.cumulativeBorrowRateSf.toNat

theorem stands_refl (k : Pubkey) (b : ObligationLiquidity) : Stands k b b :=
  ⟨Iff.rfl, fun _ => le_refl _⟩

theorem Stands.trans (h : Stands k b b') (h' : Stands k b' b'') : Stands k b b'' :=
  ⟨h'.key.trans h.key, fun hb => (h.debt hb).trans (h'.debt (h.key.mpr hb))⟩

theorem stands_of_key (hkey : b'.borrowReserve = b.borrowReserve)
    (hle : b.borrowedAmountSf.toNat ≤ b'.borrowedAmountSf.toNat) : Stands k b b' :=
  ⟨by rw [hkey], fun _ => hle⟩

theorem stands_of_ne (hb : b.borrowReserve ≠ k) (hb' : b'.borrowReserve ≠ k) : Stands k b b' :=
  ⟨iff_of_false hb' hb, fun he => absurd he hb⟩

theorem kept_refl (b : ObligationLiquidity) : Kept b b := fun _ => rfl

theorem Kept.trans (h : Kept b b') (h' : Kept b' b'') : Kept b b'' := by
  intro hl
  have hkey := h hl
  rw [h' fun hfree => hl (hkey.symm.trans hfree), hkey]

theorem settling_refl (b : ObligationLiquidity) : Settling b b := fun _ => rfl

theorem Settling.trans (h : Settling b b') (h' : Settling b' b'') : Settling b b'' := by
  intro hl
  have hkey := h' hl
  rw [hkey, h fun hfree => hl (hkey.trans hfree)]

/-- Accruing to a higher index does not lower a debt. -/
theorem debt_le_of_grown {reserves : Pubkey → Option Reserve} (h : Ledger.Grown reserves b b') :
    b.borrowedAmountSf.toNat ≤ b'.borrowedAmountSf.toNat := by
  obtain ⟨-, ⟨hdebt, -⟩ | ⟨r, -, hlt, hpos, hindex, hdebt⟩⟩ := h
  · rw [hdebt]
  · rw [hdebt, Nat.le_div_iff_mul_le hpos]
    exact Nat.mul_le_mul_left _ (Nat.le_of_lt hlt)

theorem inflated_refl (b : ObligationLiquidity) : Inflated b b := ⟨rfl, le_refl _⟩

theorem Inflated.trans (h : Inflated b b') (h' : Inflated b' b'') : Inflated b b'' :=
  ⟨h'.key.trans h.key, h'.share_le.trans h.share_le⟩

/-- A debt scaled by the quotient of two indices, rounded down. -/
theorem inflated_of_scaled (hkey : b'.borrowReserve = b.borrowReserve)
    (hlt : b.cumulativeBorrowRateSf.toNat < b'.cumulativeBorrowRateSf.toNat)
    (hdebt : b'.borrowedAmountSf.toNat = b.borrowedAmountSf.toNat *
      b'.cumulativeBorrowRateSf.toNat / b.cumulativeBorrowRateSf.toNat) : Inflated b b' := by
  refine ⟨hkey, ?_⟩
  rw [hdebt]
  exact share_grown (Nat.zero_lt_of_lt hlt)

theorem inflated_of_grown {reserves : Pubkey → Option Reserve} (h : Ledger.Grown reserves b b') :
    Inflated b b' := by
  obtain ⟨hkey, ⟨hdebt, hindex⟩ | ⟨r, -, hlt, -, hindex, hdebt⟩⟩ := h
  · exact ⟨hkey, by rw [hdebt, hindex]⟩
  · exact inflated_of_scaled hkey (hindex ▸ hlt) (hindex ▸ hdebt)

end ObligationLiquidity

namespace Obligation

open ObligationLiquidity

variable {o o' : Obligation} {k key : Pubkey}

/-! ## One call -/

theorem inflated_accrueInterest {i : Fin maxBorrowCountInReserve} {c : U128}
    (h : (o.accrueInterest i c).commit = .ok o') : Slotwise Inflated o.borrows o'.borrows := by
  rcases accrueInterest_ok h with rfl | ⟨-, hlt, -, d, hd, rfl⟩
  · exact slotwise_refl inflated_refl _
  · exact slotwise_set inflated_refl (inflated_of_scaled rfl hlt hd)

/-- An accrual leaves the slot its reserve, and its debt no smaller. -/
theorem accrueInterest_slotwise {R : ObligationLiquidity → ObligationLiquidity → Prop}
    (hrefl : ∀ b, R b b)
    (hgrow : ∀ b b' : ObligationLiquidity, b'.borrowReserve = b.borrowReserve →
      b.borrowedAmountSf.toNat ≤ b'.borrowedAmountSf.toNat → R b b')
    {i : Fin maxBorrowCountInReserve} {c : U128} (h : (o.accrueInterest i c).commit = .ok o') :
    Slotwise R o.borrows o'.borrows := by
  rcases accrueInterest_ok h with rfl | ⟨-, hlt, hpos, d, hd, rfl⟩
  · exact slotwise_refl hrefl _
  · refine slotwise_set hrefl (hgrow _ _ rfl ?_)
    show o.borrows[i].borrowedAmountSf.toNat ≤ d.toNat
    rw [hd, Nat.le_div_iff_mul_le hpos]
    exact Nat.mul_le_mul_left _ (Nat.le_of_lt hlt)

theorem accrueExisting_slotwise {R : ObligationLiquidity → ObligationLiquidity → Prop}
    (hrefl : ∀ b, R b b)
    (hgrow : ∀ b b' : ObligationLiquidity, b'.borrowReserve = b.borrowReserve →
      b.borrowedAmountSf.toNat ≤ b'.borrowedAmountSf.toNat → R b b')
    {c : U128} (h : o.accrueExisting key c = .ok o') : Slotwise R o.borrows o'.borrows := by
  unfold accrueExisting at h
  split at h
  case h_1 => exact accrueInterest_slotwise hrefl hgrow h
  case h_2 =>
    cases h
    exact slotwise_refl hrefl _

theorem refresh_slotwise {R : ObligationLiquidity → ObligationLiquidity → Prop}
    (hgrow : ∀ b b' : ObligationLiquidity, b'.borrowReserve = b.borrowReserve →
      b.borrowedAmountSf.toNat ≤ b'.borrowedAmountSf.toNat → R b b')
    {reserves : Pubkey → Option Reserve} {accounts : List Pubkey} {clock : Clock}
    (h : Ledger.refreshObligation reserves accounts clock o = .ok o') :
    Slotwise R o.borrows o'.borrows := by
  intro i
  have hgrown := (Ledger.refreshObligation_ok h).2.1 i
  exact hgrow _ _ hgrown.1 (debt_le_of_grown hgrown)

/-- Borrowing in one reserve lets the debts in the others stand. -/
theorem stands_borrow {a c : U128} (hkey : key ≠ default) (hne : key ≠ k) (hk : k ≠ default)
    (h : (o.borrow key a c).commit = .ok o') : Slotwise (Stands k) o.borrows o'.borrows := by
  obtain ⟨-, ⟨i, d, hi, hd, rfl⟩ | ⟨i, d, -, hfree, -, -, rfl⟩⟩ := borrow_ok hkey h
  · refine slotwise_set (stands_refl k) (stands_of_key rfl ?_)
    show o.borrows[i].borrowedAmountSf.toNat ≤ d.toNat
    omega
  · refine slotwise_set (stands_refl k) (stands_of_ne ?_ hne)
    exact fun he => hfree fun hzero => hk (he.symm.trans hzero)

theorem stands_repay {a : U128} (hne : key ≠ k) (hk : k ≠ default)
    (h : (o.repay key a).commit = .ok o') : Slotwise (Stands k) o.borrows o'.borrows := by
  obtain ⟨-, i, hi, left, -, ⟨-, rfl⟩ | rfl⟩ := repay_ok h
  · have hother := (findBorrow_eq_ok.mp hi).1
    exact slotwise_set (stands_refl k) (stands_of_ne (hother ▸ hne) hk.symm)
  · have hother := (findBorrow_eq_ok.mp hi).1
    exact slotwise_set (stands_refl k) (stands_of_ne (hother ▸ hne) (hother ▸ hne))

theorem settling_repay {a : U128} (h : (o.repay key a).commit = .ok o') :
    Slotwise Settling o.borrows o'.borrows := by
  obtain ⟨-, i, -, left, -, ⟨-, rfl⟩ | rfl⟩ := repay_ok h
  · exact slotwise_set settling_refl fun hl => absurd hl borrowLayout_default
  · exact slotwise_set settling_refl fun _ => rfl

/-- Repaying at most half of the whole units keeps the slot. -/
theorem kept_repay_half {a : U128} {i : Fin maxBorrowCountInReserve} (hi : o.findBorrow key = .ok i)
    (hhalf : 2 * a.toNat ≤ o.borrows[i].borrowedAmountSf.toNat / 10 ^ 12)
    (h : (o.repay key a).commit = .ok o') : Slotwise Kept o.borrows o'.borrows := by
  obtain ⟨left, -, rfl⟩ := repay_half hi hhalf h
  exact slotwise_set kept_refl fun _ => rfl

/-! ## Whole units -/

/-- Every slot in use owes at least one whole unit. -/
def WholeDebts (o : Obligation) : Prop :=
  ∀ i : Fin maxBorrowCountInReserve, borrowLayout.Live o.borrows[i] →
    10 ^ 12 ≤ o.borrows[i].borrowedAmountSf.toNat

theorem wholeDebts_init (owner market : Pubkey) : (init owner market).WholeDebts := by
  have hfree : ∀ i : Fin maxBorrowCountInReserve,
      ¬ borrowLayout.Live (Vector.replicate maxBorrowCountInReserve default)[i] := by
    decide
  exact fun i hl => absurd hl (hfree i)

theorem WholeDebts.congr (h : o.WholeDebts) (hb : o'.borrows = o.borrows) : o'.WholeDebts := by
  intro i
  rw [hb]
  exact h i

theorem WholeDebts.setBorrow (h : o.WholeDebts) {i : Fin maxBorrowCountInReserve}
    {b : ObligationLiquidity} (hb : borrowLayout.Live b → 10 ^ 12 ≤ b.borrowedAmountSf.toNat) :
    (o.setBorrow i b).WholeDebts :=
  forall_set (P := fun b => borrowLayout.Live b → 10 ^ 12 ≤ b.borrowedAmountSf.toNat) h hb

/-- Debts that grew under the same reserves are as whole as they were. -/
theorem WholeDebts.of_slotwise (h : o.WholeDebts)
    (hgrown : Slotwise (fun b b' => b'.borrowReserve = b.borrowReserve ∧
      b.borrowedAmountSf.toNat ≤ b'.borrowedAmountSf.toNat) o.borrows o'.borrows) :
    o'.WholeDebts := by
  intro i hl
  obtain ⟨hkey, hle⟩ := hgrown i
  exact (h i fun hfree => hl (hkey.trans hfree)).trans hle

theorem WholeDebts.accrueInterest {i : Fin maxBorrowCountInReserve} {c : U128} (h : o.WholeDebts)
    (hacc : (o.accrueInterest i c).commit = .ok o') : o'.WholeDebts :=
  h.of_slotwise (accrueInterest_slotwise (fun _ => ⟨rfl, le_refl _⟩) (fun _ _ hk hd => ⟨hk, hd⟩)
    hacc)

theorem WholeDebts.accrueExisting {c : U128} (h : o.WholeDebts)
    (hacc : o.accrueExisting key c = .ok o') : o'.WholeDebts :=
  h.of_slotwise (accrueExisting_slotwise (fun _ => ⟨rfl, le_refl _⟩) (fun _ _ hk hd => ⟨hk, hd⟩)
    hacc)

theorem WholeDebts.borrow {a c : U128} (h : o.WholeDebts) (hkey : key ≠ default)
    (hbor : (o.borrow key a c).commit = .ok o') : o'.WholeDebts := by
  obtain ⟨hpos, ⟨i, d, -, hd, rfl⟩ | ⟨i, d, -, -, -, hd, rfl⟩⟩ := borrow_ok hkey hbor
  · refine h.setBorrow fun _ => ?_
    show 10 ^ 12 ≤ d.toNat
    omega
  · refine h.setBorrow (i := i) (b := { ObligationLiquidity.init key c with
      borrowedAmountSf := d }) fun _ => ?_
    show 10 ^ 12 ≤ d.toNat
    omega

/-- What would be left below one unit is cleared. -/
theorem WholeDebts.repay {a : U128} (h : o.WholeDebts) (hrep : (o.repay key a).commit = .ok o') :
    o'.WholeDebts := by
  have hspec := repay_spec o key a
  rw [commit_eq_ok.mp hrep] at hspec
  cases hspec with
  | cleared i => exact h.setBorrow fun hl => absurd hl borrowLayout_default
  | reduced i _ _ left hleft _ => exact h.setBorrow fun _ => hleft

end Obligation

namespace Ledger

open ObligationLiquidity

variable {gate : Obligation → Result Unit} {clock : Clock} {k repayKey withdrawKey : Pubkey}
  {reserves : Pubkey → Option Reserve} {o : Obligation} {a : U64} {s : Seizure}

/-- A liquidation settles no debt, not even the one it repays. -/
theorem seize_kept (h : seize gate clock repayKey withdrawKey reserves o a = .ok s) :
    Slotwise Kept o.borrows s.obligation.borrows := by
  obtain ⟨r, r₁, q, q₁, i, j, o₁, hs⟩ := seize_parts h
  obtain ⟨o₂, hrep, hwd⟩ := hs.obligation
  have haccrued : Slotwise Kept o.borrows o₁.borrows :=
    Obligation.accrueInterest_slotwise kept_refl (fun _ _ hkey _ _ => hkey) hs.accrued
  rw [Obligation.borrows_withdraw hwd]
  exact haccrued.trans (fun _ _ _ => Kept.trans)
    (Obligation.kept_repay_half hs.findBorrow_accrued hs.half hrep)

/-- What a liquidation adds to a debt is interest. -/
theorem seize_inflated (h : seize gate clock repayKey withdrawKey reserves o a = .ok s) :
    Slotwise Inflated o.borrows s.obligation.borrows := by
  obtain ⟨r, r₁, q, q₁, i, j, o₁, hs⟩ := seize_parts h
  obtain ⟨o₂, hrep, hwd⟩ := hs.obligation
  obtain ⟨left, hleft, rfl⟩ := Obligation.repay_half hs.findBorrow_accrued hs.half hrep
  have haccrued := Obligation.inflated_accrueInterest hs.accrued
  have hrepaid : Slotwise Inflated o₁.borrows
      (o₁.setBorrow i { o₁.borrows[i] with borrowedAmountSf := left }).borrows := by
    refine slotwise_set inflated_refl ⟨rfl, share_mono ?_ _⟩
    show left.toNat ≤ _
    omega
  rw [Obligation.borrows_withdraw hwd]
  exact haccrued.trans (fun _ _ _ => Inflated.trans) hrepaid

theorem seize_stands (h : seize gate clock repayKey withdrawKey reserves o a = .ok s)
    (hne : repayKey ≠ k) (hk : k ≠ default) :
    Slotwise (Stands k) o.borrows s.obligation.borrows := by
  obtain ⟨r, r₁, q, q₁, i, j, o₁, hs⟩ := seize_parts h
  obtain ⟨o₂, hrep, hwd⟩ := hs.obligation
  have haccrued : Slotwise (Stands k) o.borrows o₁.borrows :=
    Obligation.accrueInterest_slotwise (stands_refl k) (fun _ _ => stands_of_key) hs.accrued
  rw [Obligation.borrows_withdraw hwd]
  exact haccrued.trans (fun _ _ _ => Stands.trans) (Obligation.stands_repay hne hk hrep)

theorem seize_wholeDebts (h : seize gate clock repayKey withdrawKey reserves o a = .ok s)
    (ho : o.WholeDebts) : s.obligation.WholeDebts := by
  obtain ⟨r, r₁, q, q₁, i, j, o₁, hs⟩ := seize_parts h
  obtain ⟨o₂, hrep, hwd⟩ := hs.obligation
  exact ((ho.accrueInterest hs.accrued).repay hrep).congr (Obligation.borrows_withdraw hwd)

end Ledger

end VeilVault
