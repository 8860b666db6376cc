/-
# VeilVault.Ledger.Debts — the two books of one debt.

A reserve books what it is owed in `borrowed_amount_sf`, in whole units, and what each unit has
grown to in its index, with twelve digits; obligations grow by the index.  `Reserve.share` is the
reserve's book as a share of its index.  Borrowing and repaying move it exactly as they move the
obligation's share; only an accrual can lower it, when the floor of the interest grows the book by a
smaller factor than the index (`keepsPace` fails), and then by less than one unit (`lapse`).
-/
import VeilVault.Ledger.Effects
import VeilVault.Obligation.Shares

namespace VeilVault

open Kit Kit.Outcome

namespace Reserve

variable {r r' : Reserve} {s a : U64}

/-- The reserve's book, in scaled units, as a share of its index. -/
def share (r : Reserve) : ℚ :=
  Kit.share (r.liquidity.borrowedAmountSf.toNat * 10 ^ 12) r.liquidity.cumulativeBorrowRateSf.toNat

/-- Accruing to this slot grows the book by at least the factor of the index. -/
def keepsPace (r : Reserve) (slot : U64) : Bool :=
  match r.currentBorrowRate with
  | .ok bps =>
      let rate := ReserveLiquidity.periodRate bps.toNat (slot.toNat - r.lastUpdateSlot.toNat)
      let debt := r.liquidity.borrowedAmountSf.toNat
      let index := r.liquidity.cumulativeBorrowRateSf.toNat
      debt * (rate * index / 10 ^ 12) ≤ rate * debt / 10 ^ 12 * index
  | .error _ => true

/-- A reserve that owes no interest on the slot keeps pace. -/
theorem keepsPace_current (h : s.toNat ≤ r.lastUpdateSlot.toNat) : r.keepsPace s = true := by
  unfold keepsPace
  split
  · have hnone : s.toNat - r.lastUpdateSlot.toNat = 0 := Nat.sub_eq_zero_of_le h
    simp [hnone, ReserveLiquidity.periodRate]
  · rfl

/-- An accrual keeps the reserve's share exactly when it keeps pace. -/
theorem share_accrueInterest (hpos : 0 < r.liquidity.cumulativeBorrowRateSf.toNat)
    (h : r.accrueInterest s = .ok r') : r.share ≤ r'.share ↔ r.keepsPace s = true := by
  rcases accrueInterest_ok h with ⟨hs, rfl⟩ | ⟨-, bps, hbps, ⟨hzero, rfl⟩ | ⟨-, l', hl, rfl⟩⟩
  · exact iff_of_true (le_refl _) (keepsPace_current hs)
  · refine iff_of_true (le_refl _) ?_
    rw [keepsPace, hbps]
    simp [hzero, ReserveLiquidity.periodRate]
  · obtain ⟨-, -, -, d, i, f, hd, hi, -, rfl⟩ := ReserveLiquidity.accuredInterest_ok hl
    rw [toNat_u16_toU64, toNat_saturatingSub] at hd hi
    rw [keepsPace, hbps, decide_eq_true_iff, ← share_keepsPace hpos, ← hd, ← hi, share, share,
      share_mul, share_mul]
    exact mul_le_mul_iff_left₀ (by norm_num)

/-- What an accrual may cost the share: one unit at the index one, if it does not keep pace. -/
def lapse (r : Reserve) (slot : U64) : ℕ := if r.keepsPace slot = true then 0 else 1

/-- Book and index grow by the same rate; the book's floor is coarser. -/
theorem floor_lags (rate D I : ℕ) : D * (rate * I / 10 ^ 12) ≤ (rate * D / 10 ^ 12 + 1) * I := by
  have hfloor : rate * D < (rate * D / 10 ^ 12 + 1) * 10 ^ 12 := by
    rw [Nat.add_mul, Nat.one_mul]
    exact Nat.lt_div_mul_add (by decide)
  calc D * (rate * I / 10 ^ 12) ≤ D * (rate * I) / 10 ^ 12 := Nat.mul_div_le_mul_div_assoc ..
    _ = rate * D * I / 10 ^ 12 := by rw [← Nat.mul_assoc, Nat.mul_comm D]
    _ ≤ (rate * D / 10 ^ 12 + 1) * 10 ^ 12 * I / 10 ^ 12 :=
        Nat.div_le_div_right (Nat.mul_le_mul_right I (Nat.le_of_lt hfloor))
    _ = (rate * D / 10 ^ 12 + 1) * I := by
        rw [Nat.mul_right_comm]
        exact Nat.mul_div_cancel _ (by decide)

/-- From the index one on, a unit of the book is no more than a unit of share. -/
theorem share_le_accrueInterest (hone : 10 ^ 12 ≤ r.liquidity.cumulativeBorrowRateSf.toNat)
    (h : r.accrueInterest s = .ok r') : r.share ≤ r'.share + r.lapse s := by
  have hpos : 0 < r.liquidity.cumulativeBorrowRateSf.toNat :=
    Nat.lt_of_lt_of_le (by decide) hone
  by_cases hpace : r.keepsPace s = true
  · rw [lapse, if_pos hpace, Nat.cast_zero, add_zero]
    exact (share_accrueInterest hpos h).mpr hpace
  rw [lapse, if_neg hpace, Nat.cast_one]
  rcases accrueInterest_ok h with ⟨-, rfl⟩ | ⟨-, bps, -, ⟨-, rfl⟩ | ⟨-, l', hl, rfl⟩⟩
  · exact le_add_of_nonneg_right zero_le_one
  · exact le_add_of_nonneg_right zero_le_one
  · obtain ⟨-, -, -, d, i, f, hd, hi, -, rfl⟩ := ReserveLiquidity.accuredInterest_ok hl
    have hlag : Kit.share r.liquidity.borrowedAmountSf.toNat
        r.liquidity.cumulativeBorrowRateSf.toNat ≤
          Kit.share d.toNat i.toNat + Kit.share 1 i.toNat := by
      rw [hd, hi]
      exact share_lags hpos (floor_lags _ _ _)
    have hunit : Kit.share 1 i.toNat * (10 ^ 12 : ℕ) ≤ 1 := by
      rw [← share_mul, Nat.one_mul, Kit.share]
      apply div_le_one_of_le₀ _ (Nat.cast_nonneg _)
      exact Nat.cast_le.mpr (hone.trans (hi ▸ Nat.le_add_right _ _))
    rw [share, share, share_mul, share_mul]
    calc Kit.share _ _ * ((10 ^ 12 : ℕ) : ℚ)
        ≤ (Kit.share d.toNat i.toNat + Kit.share 1 i.toNat) * (10 ^ 12 : ℕ) := by gcongr
      _ ≤ Kit.share d.toNat i.toNat * (10 ^ 12 : ℕ) + 1 := by
          rw [add_mul]
          exact add_le_add_right hunit _

/-- A new reserve is owed nothing. -/
theorem share_create {market key mint : Pubkey} {params : InitReserveConfigParams}
    (h : create s market key mint params = .ok r) : r.share = 0 := by
  have hdebt : r.liquidity.borrowedAmountSf = 0 := by rw [(create_ok h).1]; rfl
  rw [share, hdebt, share_mul]
  show Kit.share 0 _ * _ = 0
  rw [share_zero, zero_mul]

theorem share_borrow (h : r.borrow a = .ok r') : r'.share =
    r.share + Kit.share (a.toNat * 10 ^ 12) r'.liquidity.cumulativeBorrowRateSf.toNat := by
  obtain ⟨-, l', hl, rfl⟩ := borrow_ok.mp h
  obtain ⟨v, d, -, hd, rfl⟩ := ReserveLiquidity.borrow_ok.mp hl
  rw [share, share, ← share_add]
  show Kit.share (d.toNat * 10 ^ 12) _ = _
  rw [hd, Nat.add_mul]

theorem share_repay (h : r.repay a = .ok r') :
    r'.share + Kit.share (a.toNat * 10 ^ 12) r.liquidity.cumulativeBorrowRateSf.toNat =
      r.share := by
  obtain ⟨l', hl, rfl⟩ := repay_ok.mp h
  obtain ⟨v, d, -, hd, rfl⟩ := ReserveLiquidity.repay_ok.mp hl
  rw [share, share]
  show Kit.share (d.toNat * 10 ^ 12) _ + _ = _
  rw [← share_add, ← Nat.add_mul, hd]

end Reserve

namespace Ledger

variable {market : LendingMarket} {clock : Clock} {key x : Pubkey} {r r' : Reserve}
  {o o' : Obligation} {a : U64}

/-! ## What an instruction does to both books -/

theorem accrueExisting_ok {c : U128} (hk : key ≠ default)
    (h : o.accrueExisting key c = .ok o') : o'.shareAt x ≤ o.shareAt x ∧
      ∀ i, o'.findBorrow key = .ok i → o'.borrows[i].cumulativeBorrowRateSf = c := by
  unfold Obligation.accrueExisting at h
  rcases o.findBorrow_cases key with ⟨i, hf⟩ | ⟨hf, hnew⟩
  · rw [hf] at h
    obtain ⟨hfound, hrate⟩ := Obligation.accrueInterest_found hk hf h
    refine ⟨Obligation.shareAt_accrueInterest h, fun j hj => ?_⟩
    obtain rfl : i = j := Except.ok.inj (hfound.symm.trans hj)
    exact hrate
  · rw [hf] at h
    cases h
    refine ⟨le_refl _, fun j hj => ?_⟩
    rw [hf] at hj
    cases hj

/-- A borrow adds the same share to both books. -/
theorem Borrows.shareAt (h : Borrows clock key r o a r' o') (hk : key ≠ default)
    (hx : x ≠ default) : o'.shareAt x ≤ o.shareAt x + (if x = key then
      Kit.share (a.toNat * 10 ^ 12) r'.liquidity.cumulativeBorrowRateSf.toNat else 0) := by
  obtain ⟨r₁, o₁, -, -, ho₁, hb⟩ := h.steps
  obtain ⟨hle, hrate⟩ := accrueExisting_ok (x := x) hk ho₁
  have hadd := Obligation.shareAt_borrow hk hx hrate hb
  rw [toNat_toU128] at hadd
  rw [hadd]
  exact add_le_add_left hle _

/-- A repayment at the index `c`, of a debt accrued to it. -/
theorem shareAt_accrueRepay {o₁ : Obligation} {i : Fin maxBorrowCountInReserve} {c : U128}
    (hk : key ≠ default) (hx : x ≠ default) (hf : o.findBorrow key = .ok i)
    (hacc : (o.accrueInterest i c).commit = .ok o₁)
    (hrep : (o₁.repay key a.toU128).commit = .ok o') :
    o'.shareAt x + (if x = key then Kit.share (a.toNat * 10 ^ 12) c.toNat else 0) ≤
      o.shareAt x := by
  obtain ⟨hfound, hrate⟩ := Obligation.accrueInterest_found hk hf hacc
  obtain ⟨j, hj, hpaid⟩ := Obligation.shareAt_repay hx hrep
  obtain rfl : i = j := Except.ok.inj (hfound.symm.trans hj)
  rw [hrate, toNat_toU128] at hpaid
  exact hpaid.trans (Obligation.shareAt_accrueInterest hacc)

/-- A repayment removes the same share from both books, up to the dust it forgives. -/
theorem shareAt_repay (h : repay clock key r o a = .ok (r', o')) (hk : key ≠ default)
    (hx : x ≠ default) : o'.shareAt x + (if x = key then
      Kit.share (a.toNat * 10 ^ 12) r'.liquidity.cumulativeBorrowRateSf.toNat else 0) ≤
        o.shareAt x := by
  obtain ⟨r₁, i, o₁, -, hrep, hf, ho₁, ho'⟩ := repay_ok h
  rw [(Reserve.keepsTerms_of_repay hrep).rate]
  exact shareAt_accrueRepay hk hx hf ho₁ ho'

theorem shareAt_refreshObligation {reserves : Pubkey → Option Reserve} {accounts : List Pubkey}
    (h : refreshObligation reserves accounts clock o = .ok o') :
    o'.shareAt x ≤ o.shareAt x := by
  obtain ⟨-, hgrown, -⟩ := refreshObligation_ok h
  apply Obligation.shareAt_le_of_slots
  intro i
  obtain ⟨hkey, ⟨hd, hc⟩ | ⟨r, -, hlt, -, hc, hd⟩⟩ := hgrown i
  · refine ⟨hkey, le_of_eq ?_⟩
    rw [ObligationLiquidity.share, ObligationLiquidity.share, hd, hc]
  · refine ⟨hkey, ?_⟩
    rw [ObligationLiquidity.share, hd, hc]
    exact share_grown (Nat.zero_lt_of_lt hlt)

theorem shareAt_withdrawCollateral (h : withdrawCollateral market clock key o a = .ok o') :
    o'.shareAt x = o.shareAt x := by
  obtain ⟨i, m, -, -, hwd, -⟩ := withdrawCollateral_ok h
  exact (Obligation.shareAt_withdraw hwd).trans rfl

/-! ## What an instruction does to a reserve's book -/

/-- An accrual, and then `lent` out of the reserve's book or `repaid` into it, at one index. -/
def Reaccrued (slot : U64) (r r' : Reserve) (lent repaid : ℚ) : Prop :=
  ∃ r₁, r.accrueInterest slot = .ok r₁ ∧
    r'.liquidity.cumulativeBorrowRateSf = r₁.liquidity.cumulativeBorrowRateSf ∧
    r₁.share + lent = r'.share + repaid

variable {slot : U64} {lent repaid : ℚ}

theorem Reaccrued.index_le (h : Reaccrued slot r r' lent repaid) :
    r.liquidity.cumulativeBorrowRateSf.toNat ≤ r'.liquidity.cumulativeBorrowRateSf.toNat := by
  obtain ⟨r₁, hacc, hrate, -⟩ := h
  rw [hrate]
  exact (Reserve.accrues_of_ok hacc).rate_le

/-- The accrual is the only part that can lower the share by more than was repaid. -/
theorem Reaccrued.share_le (h : Reaccrued slot r r' lent repaid)
    (hone : 10 ^ 12 ≤ r.liquidity.cumulativeBorrowRateSf.toNat) :
    r.share + lent ≤ r'.share + r.lapse slot + repaid := by
  obtain ⟨r₁, hacc, -, hpaid⟩ := h
  have hle := Reserve.share_le_accrueInterest hone hacc
  linarith

theorem reaccrued (h : r.accrueInterest slot = .ok r') : Reaccrued slot r r' 0 0 :=
  ⟨r', h, rfl, rfl⟩

theorem reaccrued_deposit {m : U64} (h : deposit market clock r a = .ok (r', m)) :
    Reaccrued clock.slot r r' 0 0 := by
  obtain ⟨r₁, hacc, hdep⟩ := deposit_ok h
  obtain ⟨-, -, v, n, -, -, rfl⟩ := Reserve.depositLiquidity_ok hdep
  exact ⟨r₁, hacc, rfl, rfl⟩

theorem reaccrued_withdraw {l : U64} (h : withdraw market clock r a = .ok (r', l)) :
    Reaccrued clock.slot r r' 0 0 := by
  obtain ⟨r₁, hacc, hred⟩ := withdraw_ok h
  obtain ⟨-, v, n, -, -, rfl⟩ := Reserve.redeemCollateral_ok hred
  exact ⟨r₁, hacc, rfl, rfl⟩

theorem reaccrued_refresh {priceKey : Pubkey} {priceUpdate : Option PriceUpdate}
    (h : refreshReserve clock r priceKey priceUpdate = .ok r') :
    Reaccrued clock.slot r r' 0 0 := by
  obtain ⟨r₁, p, t, hacc, rfl⟩ := refreshReserve_ok h
  exact ⟨r₁, hacc, rfl, rfl⟩

theorem Borrows.reaccrued (h : Borrows clock key r o a r' o') : Reaccrued clock.slot r r'
    (Kit.share (a.toNat * 10 ^ 12) r'.liquidity.cumulativeBorrowRateSf.toNat) 0 := by
  obtain ⟨r₁, o₁, hacc, hb, -, -⟩ := h.steps
  refine ⟨r₁, hacc, (Reserve.keepsTerms_of_borrow hb).rate, ?_⟩
  rw [Reserve.share_borrow hb, add_zero]

theorem reaccrued_accrueRepay {r₁ : Reserve} (hacc : r.accrueInterest slot = .ok r₁)
    (hrep : r₁.repay a = .ok r') : Reaccrued slot r r' 0
      (Kit.share (a.toNat * 10 ^ 12) r₁.liquidity.cumulativeBorrowRateSf.toNat) := by
  refine ⟨r₁, hacc, (Reserve.keepsTerms_of_repay hrep).rate, ?_⟩
  rw [Reserve.share_repay hrep, add_zero]

theorem reaccrued_repay (h : repay clock key r o a = .ok (r', o')) : Reaccrued clock.slot r r' 0
    (Kit.share (a.toNat * 10 ^ 12) r'.liquidity.cumulativeBorrowRateSf.toNat) := by
  obtain ⟨r₁, i, o₁, hacc, hrep, -, -, -⟩ := repay_ok h
  rw [(Reserve.keepsTerms_of_repay hrep).rate]
  exact reaccrued_accrueRepay hacc hrep

/-- A liquidation removes the same share from both books as well; its two reserves are accrued in
turn, and the second accrual of one reserve changes nothing. -/
theorem seize_books {gate : Obligation → Result Unit} {repayKey withdrawKey : Pubkey}
    {reserves : Pubkey → Option Reserve} {s : Seizure}
    (h : seize gate clock repayKey withdrawKey reserves o a = .ok s) :
    ∃ r r' q q' repaid, reserves repayKey = some r ∧ Reaccrued clock.slot r r' 0 repaid ∧
      (withdrawKey ≠ repayKey → reserves withdrawKey = some q ∧ Reaccrued clock.slot q q' 0 0) ∧
      (∀ x, s.reserves x = if x = repayKey then some r' else
        if x = withdrawKey then some q' else reserves x) ∧
      (repayKey ≠ default → ∀ x, x ≠ default → s.obligation.shareAt x +
        (if x = repayKey then repaid else 0) ≤ o.shareAt x) := by
  obtain ⟨r, r₁, q, q₁, i, j, o₁, hseize⟩ := seize_parts h
  obtain ⟨o₂, ho₂, ho₃⟩ := hseize.obligation
  obtain ⟨r₃, hr₃, hs⟩ := hseize.paid
  have hq := hseize.withdrawReserve
  refine ⟨r, r₃, q, q₁, _, hseize.repayReserve, reaccrued_accrueRepay hseize.repayAccrued hr₃,
    fun hne => ?_, fun x => ?_, fun hk x hx => ?_⟩
  · rw [store_of_ne _ _ hne] at hq
    exact ⟨hq, reaccrued hseize.withdrawAccrued⟩
  · rw [hs]
    by_cases hxr : x = repayKey
    · rw [if_pos hxr, hxr, store_self]
    · rw [if_neg hxr, store_of_ne _ _ hxr]
      by_cases hxw : x = withdrawKey
      · rw [if_pos hxw, hxw, store_self]
      · rw [if_neg hxw, store_of_ne _ _ hxw, store_of_ne _ _ hxr]
  · rw [Obligation.shareAt_withdraw ho₃]
    exact shareAt_accrueRepay hk hx hseize.borrow hseize.accrued ho₂

end Ledger

end VeilVault
