/-
# VeilVault.Obligation.Paths — one debt, accrued through many indices.

A debt is brought to its reserve's index by whoever refreshes it, as often as they like.  Each
accrual rounds the debt down once, so a path of accruals ends at most at the debt of a single one,
and below it by less than one unit for each step, grown by at most the factor of the whole path.
-/
import VeilVault.Obligation.Shares

namespace VeilVault

open Kit Kit.Outcome

namespace Obligation

variable {o o' : Obligation} {i : Fin maxBorrowCountInReserve} {c : U128}

/-- Bring one slot to each index of a list in turn. -/
def accrueThrough (o : Obligation) (slotIndex : Nat) (indices : List U128) : Result Obligation :=
  indices.foldlM (fun o c => (o.accrueInterest slotIndex c).commit) o

/-! ## One accrual -/

/-- What an accrual makes of an active slot, whichever branch it takes. -/
structure AccruedTo (o : Obligation) (i : Fin maxBorrowCountInReserve) (c : U128)
    (o' : Obligation) : Prop where
  live : borrowLayout.Live o'.borrows[i]
  rate : o'.borrows[i].cumulativeBorrowRateSf = c
  debt : o'.borrows[i].borrowedAmountSf.toNat =
    o.borrows[i].borrowedAmountSf.toNat * c.toNat / o.borrows[i].cumulativeBorrowRateSf.toNat

/-- The product fits, or it is not computed because the index has not moved. -/
def Fits (o : Obligation) (i : Fin maxBorrowCountInReserve) (c : U128) : Prop :=
  c = o.borrows[i].cumulativeBorrowRateSf ∨
    o.borrows[i].borrowedAmountSf.toNat * c.toNat < 2 ^ 128

/-- From a positive index to one that is not lower, an accrual succeeds exactly when it fits. -/
theorem accrueInterest_cases (hi : borrowLayout.Live o.borrows[i])
    (hpos : 0 < o.borrows[i].cumulativeBorrowRateSf.toNat)
    (hle : o.borrows[i].cumulativeBorrowRateSf ≤ c) :
    (o.Fits i c ∧ ∃ o', (o.accrueInterest i c).commit = .ok o' ∧ o.AccruedTo i c o') ∨
      (¬ o.Fits i c ∧ (o.accrueInterest i c).commit = .error (.lending .mathOverflow)) := by
  have hspec := accrueInterest_spec o i c
  generalize o.accrueInterest i c = out at hspec ⊢
  cases hspec with
  | inactive hn => exact absurd hi hn
  | decreased _ hlt => exact absurd hlt (Nat.not_lt.mpr (BitVec.le_def.mp hle))
  | same _ heq =>
      refine .inl ⟨.inl heq, o, rfl, hi, heq.symm, ?_⟩
      rw [heq, Nat.mul_div_cancel _ hpos]
  | overflow _ hlt hbig =>
      refine .inr ⟨?_, rfl⟩
      rintro (heq | hfit)
      · rw [heq] at hlt
        exact absurd hlt (Nat.lt_irrefl _)
      · omega
  | grown _ _ hfit _ d hd =>
      have hslot : (o.grownBorrow i c d).borrows[i] =
          { o.borrows[i] with borrowedAmountSf := d, cumulativeBorrowRateSf := c } :=
        getElem_set_fin_self _ i _
      refine .inl ⟨.inr hfit, _, rfl, ?_, ?_, ?_⟩
      · rw [hslot]
        exact hi
      · rw [hslot]
      · rw [hslot]
        exact hd

/-! ## A path -/

/-- After `n` accruals from `o`, the last of them to the index `c`. -/
structure Follows (o : Obligation) (i : Fin maxBorrowCountInReserve) (n : ℕ) (c : U128)
    (o' : Obligation) : Prop where
  rate : o'.borrows[i].cumulativeBorrowRateSf = c
  share_le : o'.borrows[i].share ≤ o.borrows[i].share
  share_ge : o.borrows[i].share ≤
    o'.borrows[i].share + Kit.share n o.borrows[i].cumulativeBorrowRateSf.toNat
  /-- The single accrual from `o` fits when the accruals of the path did. -/
  fits : o.Fits i c

theorem AccruedTo.debt_le {o₁ : Obligation} (h : o.AccruedTo i c o₁)
    (hpos : 0 < o.borrows[i].cumulativeBorrowRateSf.toNat)
    (hle : o.borrows[i].cumulativeBorrowRateSf ≤ c) :
    o.borrows[i].borrowedAmountSf.toNat ≤ o₁.borrows[i].borrowedAmountSf.toNat := by
  rw [h.debt, Nat.le_div_iff_mul_le hpos]
  exact Nat.mul_le_mul_left _ (BitVec.le_def.mp hle)

/-- One more accrual at the front of a path. -/
theorem Follows.cons {o₁ : Obligation} {c₁ : U128} {n : ℕ} (h : o.AccruedTo i c₁ o₁)
    (hfits : o.Fits i c₁) (hpos : 0 < o.borrows[i].cumulativeBorrowRateSf.toNat)
    (hle : o.borrows[i].cumulativeBorrowRateSf ≤ c₁) (hrest : o₁.Follows i n c o') :
    o.Follows i (n + 1) c o' := by
  have hle' := BitVec.le_def.mp hle
  have hpos₁ : 0 < c₁.toNat := Nat.lt_of_lt_of_le hpos hle'
  have hshare₁ : o₁.borrows[i].share = Kit.share (o.borrows[i].borrowedAmountSf.toNat * c₁.toNat /
      o.borrows[i].cumulativeBorrowRateSf.toNat) c₁.toNat := by
    rw [ObligationLiquidity.share, h.rate, h.debt]
  refine ⟨hrest.rate, ?_, ?_, ?_⟩
  · calc o'.borrows[i].share
        ≤ o₁.borrows[i].share := hrest.share_le
      _ ≤ o.borrows[i].share := by
          rw [hshare₁]
          exact share_grown hpos₁
  · -- this step loses a unit at its own index, and the rest loses less at higher indices
    have hstep : o.borrows[i].share ≤ o₁.borrows[i].share +
        Kit.share 1 o.borrows[i].cumulativeBorrowRateSf.toNat := by
      rw [hshare₁]
      exact (share_le_grown hpos₁ hpos).trans (add_le_add_right (share_anti hpos hle' 1) _)
    have hlater : Kit.share n o₁.borrows[i].cumulativeBorrowRateSf.toNat ≤
        Kit.share n o.borrows[i].cumulativeBorrowRateSf.toNat := by
      rw [h.rate]
      exact share_anti hpos hle' n
    have hge := hrest.share_ge
    rw [share_add]
    linarith
  · rcases hrest.fits with heq | hfit
    · rw [heq, h.rate]
      exact hfits
    · right
      exact Nat.lt_of_le_of_lt (Nat.mul_le_mul_right _ (h.debt_le hpos hle)) hfit

/-- A path that does not overflow succeeds, and its effect is bounded from both sides. -/
theorem accrueThrough_follows (indices : List U128) (o : Obligation)
    (hi : borrowLayout.Live o.borrows[i])
    (hpos : 0 < o.borrows[i].cumulativeBorrowRateSf.toNat)
    (hmono : (o.borrows[i].cumulativeBorrowRateSf :: indices).Pairwise (· ≤ ·))
    (hfit : o.accrueThrough i indices ≠ .error (.lending .mathOverflow)) :
    ∃ o', o.accrueThrough i indices = .ok o' ∧
      o.Follows i indices.length
        (indices.getLastD o.borrows[i].cumulativeBorrowRateSf) o' := by
  induction indices generalizing o with
  | nil =>
      refine ⟨o, rfl, rfl, le_refl _, ?_, .inl rfl⟩
      rw [List.length_nil, share_zero, add_zero]
  | cons c cs ih =>
      obtain ⟨hhead, hmono'⟩ := List.pairwise_cons.mp hmono
      have hle : o.borrows[i].cumulativeBorrowRateSf ≤ c := hhead c List.mem_cons_self
      have hunfold : o.accrueThrough i (c :: cs) =
          (o.accrueInterest i c).commit >>= fun o => o.accrueThrough i cs :=
        List.foldlM_cons ..
      rw [hunfold] at hfit ⊢
      -- an overflow at this step would be the path's own
      rcases accrueInterest_cases hi hpos hle with ⟨hfits, o₁, ho₁, hacc⟩ | ⟨-, herr⟩
      · rw [ho₁, ok_bind] at hfit ⊢
        have hpos₁ : 0 < o₁.borrows[i].cumulativeBorrowRateSf.toNat := by
          rw [hacc.rate]
          exact Nat.lt_of_lt_of_le hpos (BitVec.le_def.mp hle)
        obtain ⟨o', ho', hrest⟩ := ih o₁ hacc.live hpos₁ (hacc.rate ▸ hmono') hfit
        rw [hacc.rate] at hrest
        rw [List.length_cons, List.getLastD_cons]
        exact ⟨o', ho', .cons hacc hfits hpos hle hrest⟩
      · rw [herr] at hfit
        exact absurd rfl hfit

/-- Accruing an active debt through any non-decreasing indices, if nothing overflows, ends at the
last index, at most at the debt of one accrual to it, and below that by less than one unit for each
step, grown by the whole path. -/
theorem accrueThrough_bounds {indices : List U128} (hactive : o.borrows[i].isActive = true)
    (hpos : 0 < o.borrows[i].cumulativeBorrowRateSf.toNat)
    (hmono : (o.borrows[i].cumulativeBorrowRateSf :: indices).Pairwise (· ≤ ·))
    (hfit : o.accrueThrough i indices ≠ .error (.lending .mathOverflow)) :
    let d := o.borrows[i].borrowedAmountSf.toNat
    let c₀ := o.borrows[i].cumulativeBorrowRateSf.toNat
    let c := indices.getLastD o.borrows[i].cumulativeBorrowRateSf
    ∃ o' once, o.accrueThrough i indices = .ok o' ∧ (o.accrueInterest i c).commit = .ok once ∧
      once.borrows[i].borrowedAmountSf.toNat = d * c.toNat / c₀ ∧
      o'.borrows[i].borrowedAmountSf.toNat ≤ d * c.toNat / c₀ ∧
      ((d * c.toNat / c₀ : ℕ) : ℚ) - o'.borrows[i].borrowedAmountSf.toNat <
        indices.length * c.toNat / c₀ + 1 ∧
      once.borrows[i].cumulativeBorrowRateSf = c ∧ o'.borrows[i].cumulativeBorrowRateSf = c := by
  intro d c₀ c
  have hlive := borrowLayout_live.mpr hactive
  obtain ⟨o', ho', hfollows⟩ := accrueThrough_follows indices o hlive hpos hmono hfit
  have hle : o.borrows[i].cumulativeBorrowRateSf ≤ c := by
    rcases List.mem_cons.mp (List.getLastD_mem_cons (l := indices)) with heq | hmem
    · exact BitVec.le_of_eq heq.symm
    · exact (List.pairwise_cons.mp hmono).1 _ hmem
  have hpos' : 0 < c.toNat := Nat.lt_of_lt_of_le hpos (BitVec.le_def.mp hle)
  -- both bounds are on the share, debt over index, which accruals only round down
  have hshare : o'.borrows[i].share =
      Kit.share o'.borrows[i].borrowedAmountSf.toNat c.toNat := by
    rw [ObligationLiquidity.share, hfollows.rate]
  have hupper := hfollows.share_le
  have hlower := hfollows.share_ge
  rw [hshare] at hupper hlower
  rcases accrueInterest_cases hlive hpos hle with ⟨-, once, honce, hacc⟩ | ⟨hno, -⟩
  · refine ⟨o', once, ho', honce, hacc.debt, le_grown_of_share_le hpos hpos' hupper, ?_,
      hacc.rate, hfollows.rate⟩
    have hshort := grown_le_add hpos' hlower
    linarith
  · exact absurd hfollows.fits hno

/-- A debt of 1000.000000000007 units at the index 1. -/
def owing : Obligation :=
  (default : Obligation).setBorrow 0
    { borrowReserve := .key 3, borrowedAmountSf := 1000000000000007, marketValueSf := 0
      cumulativeBorrowRateSf := rateScale }

theorem accrueThrough_bounds_owing :
    ∃ o' once, owing.accrueThrough 0 [1000000000001, 1100000000000, 1100000000000, 1300000000000] =
        .ok o' ∧ (owing.accrueInterest 0 1300000000000).commit = .ok once ∧
      once.borrows[0].borrowedAmountSf.toNat = 1300000000000009 ∧
      o'.borrows[0].borrowedAmountSf.toNat ≤ 1300000000000009 := by
  have hmono : (owing.borrows[0].cumulativeBorrowRateSf ::
      [1000000000001, 1100000000000, 1100000000000, 1300000000000]).Pairwise (· ≤ ·) := by decide
  obtain ⟨o', once, ho', honce, hdebt, hle, -⟩ :=
    accrueThrough_bounds (o := owing) (i := 0) (by decide) (by decide) hmono (by decide)
  exact ⟨o', once, ho', honce, hdebt, hle⟩

end Obligation

end VeilVault
