/-
# VeilVault.Ledger.Effects — what a ledger part did, when it succeeded.

One inversion for each instruction: the method calls it went through, in order, with the states
between them.  Everything proved about runs starts from these and from the methods' own
specifications; no later proof unfolds an instruction.
-/
import VeilVault.Kit.Run
import VeilVault.Ledger.Liquidate
import VeilVault.Ledger.Refresh
import VeilVault.Obligation.Totals
import VeilVault.Reserve.Methods

namespace VeilVault

open Kit Kit.Outcome

namespace Obligation

variable {o o' : Obligation} {k : Pubkey} {c : U128}

/-! ## The slot a borrow leaves -/

/-- The debt under one reserve, brought to the index `c`; none if there is no slot. -/
def accruedDebt (o : Obligation) (k : Pubkey) (c : U128) : ℕ :=
  match o.findBorrow k with
  | .ok i => o.borrows[i].borrowedAmountSf.toNat * c.toNat /
      o.borrows[i].cumulativeBorrowRateSf.toNat
  | .error _ => 0

theorem debt_accrueInterest {i : Fin maxBorrowCountInReserve} (hc : 0 < c.toNat)
    (hl : borrowLayout.Live o.borrows[i])
    (h : (o.accrueInterest i c).commit = .ok o') : o'.borrows[i].borrowedAmountSf.toNat =
      o.borrows[i].borrowedAmountSf.toNat * c.toNat /
        o.borrows[i].cumulativeBorrowRateSf.toNat := by
  have hspec := accrueInterest_spec o i c
  rw [commit_eq_ok.mp h] at hspec
  cases hspec with
  | inactive hn => exact absurd hl hn
  | same _ heq => rw [← heq, Nat.mul_div_cancel _ hc]
  | grown _ _ _ _ d hd =>
      rw [grownBorrow, setBorrow]
      simp only [getElem_set_fin_self]
      exact hd

/-- Accrue, then borrow: the slot stands at the index, with its accrued debt plus the new one. -/
theorem borrow_after_accrueExisting {o₁ : Obligation} {a : U128} (hk : k ≠ default)
    (hc : 0 < c.toNat) (hacc : o.accrueExisting k c = .ok o₁)
    (hbor : (o₁.borrow k a c).commit = .ok o') :
    ∃ i, o'.findBorrow k = .ok i ∧ o'.borrows[i].cumulativeBorrowRateSf = c ∧
      o'.borrows[i].borrowedAmountSf.toNat = o.accruedDebt k c + a.toNat * 10 ^ 12 := by
  unfold Obligation.accrueExisting at hacc
  rcases o.findBorrow_cases k with ⟨i, hf⟩ | ⟨hf, hnew⟩
  · rw [hf] at hacc
    have hl := borrow_live hk (findBorrow_eq_ok.mp hf).1
    obtain ⟨hfound, hrate⟩ := accrueInterest_found hk hf hacc
    obtain ⟨d, hd, rfl⟩ := borrow_ok_of_found hk hfound hbor
    have hdebt := debt_accrueInterest hc hl hacc
    refine ⟨i, findBorrow_setBorrow hfound (findBorrow_eq_ok.mp hfound).1, ?_, ?_⟩
    · rw [setBorrow_borrows, getElem_set_fin_self]
      exact hrate
    · rw [setBorrow_borrows, getElem_set_fin_self, accruedDebt, hf]
      show d.toNat = _
      rw [hd, hdebt]
  · rw [hf] at hacc
    cases hacc
    obtain ⟨i, hfound, hrate, hdebt⟩ := borrow_ok_of_new hk hnew hbor
    refine ⟨i, hfound, hrate, ?_⟩
    rw [hdebt, accruedDebt, hf, Nat.zero_add]

end Obligation

namespace Ledger

variable {market : LendingMarket} {clock : Clock} {key : Pubkey} {r r' : Reserve}
  {o o' : Obligation} {a : U64}

/-! ## One reserve, one obligation -/

theorem deposit_ok {m : U64} (h : deposit market clock r a = .ok (r', m)) :
    ∃ r₁, r.accrueInterest clock.slot = .ok r₁ ∧ r₁.depositLiquidity a = .ok (r', m) := by
  simp only [deposit, bind_eq_ok, require_eq_ok, exists_const] at h
  obtain ⟨-, -, -, r₁, hacc, hdep⟩ := h
  exact ⟨r₁, hacc, hdep⟩

theorem withdraw_ok {l : U64} (h : withdraw market clock r a = .ok (r', l)) :
    ∃ r₁, r.accrueInterest clock.slot = .ok r₁ ∧ r₁.redeemCollateral a = .ok (r', l) := by
  simp only [withdraw, bind_eq_ok, require_eq_ok, exists_const] at h
  obtain ⟨-, -, -, r₁, hacc, hred⟩ := h
  exact ⟨r₁, hacc, hred⟩

/-- What a borrow of either kind does. -/
structure Borrows (clock : Clock) (key : Pubkey) (r : Reserve) (o : Obligation) (a : U64)
    (r' : Reserve) (o' : Obligation) : Prop where
  steps : ∃ r₁ o₁, r.accrueInterest clock.slot = .ok r₁ ∧ r₁.borrow a = .ok r' ∧
    o.accrueExisting key r'.liquidity.cumulativeBorrowRateSf = .ok o₁ ∧
    (o₁.borrow key a.toU128 r'.liquidity.cumulativeBorrowRateSf).commit = .ok o'
  gate : o'.inlineHealthCheck a r'.liquidity.marketPriceSf = .ok ()

theorem privateBorrow_ok {init : Bool}
    (h : privateBorrow market init clock key r o a = .ok (r', o')) :
    Borrows clock key r o a r' o' := by
  simp only [privateBorrow, bind_eq_ok, require_eq_ok, exists_const, pure_eq_ok,
    Prod.mk.injEq] at h
  obtain ⟨-, -, -, -, -, r₁, hacc, r₂, hb, -, o₁, ho₁, o₂, ho₂, ⟨⟩, hgate, rfl, rfl⟩ := h
  exact ⟨⟨r₁, o₁, hacc, hb, ho₁, ho₂⟩, hgate⟩

theorem borrow_ok (h : borrow market clock key r o a = .ok (r', o')) :
    Borrows clock key r o a r' o' := by
  simp only [borrow, bind_eq_ok, require_eq_ok, exists_const, pure_eq_ok, Prod.mk.injEq] at h
  obtain ⟨-, -, -, -, r₁, hacc, r₂, hb, -, o₁, ho₁, o₂, ho₂, ⟨⟩, hgate, rfl, rfl⟩ := h
  exact ⟨⟨r₁, o₁, hacc, hb, ho₁, ho₂⟩, hgate⟩

/-- `borrow` only lends a positive amount, at a price. -/
theorem pos_of_borrow (h : borrow market clock key r o a = .ok (r', o')) :
    0 < a.toNat ∧ 0 < r.liquidity.marketPriceSf.toNat := by
  simp only [borrow, bind_eq_ok, require_eq_ok, exists_const] at h
  obtain ⟨-, hamount, -, hprice, -⟩ := h
  exact ⟨BitVec.lt_def.mp hamount, BitVec.lt_def.mp hprice⟩

/-- A borrow leaves its slot at the reserve's index, with the old debt brought to that index and the
new principal on top. -/
theorem Borrows.slot (h : Borrows clock key r o a r' o') (hk : key ≠ default)
    (hpos : 0 < r'.liquidity.cumulativeBorrowRateSf.toNat) :
    ∃ i, o'.findBorrow key = .ok i ∧
      o'.borrows[i].cumulativeBorrowRateSf = r'.liquidity.cumulativeBorrowRateSf ∧
      o'.borrows[i].borrowedAmountSf.toNat =
        o.accruedDebt key r'.liquidity.cumulativeBorrowRateSf + a.toNat * 10 ^ 12 := by
  obtain ⟨r₁, o₁, -, -, ho₁, hb⟩ := h.steps
  have hslot := Obligation.borrow_after_accrueExisting hk hpos ho₁ hb
  rwa [toNat_toU128] at hslot

theorem repay_ok (h : repay clock key r o a = .ok (r', o')) :
    ∃ r₁ i o₁, r.accrueInterest clock.slot = .ok r₁ ∧ r₁.repay a = .ok r' ∧
      o.findBorrow key = .ok i ∧
      (o.accrueInterest i r₁.liquidity.cumulativeBorrowRateSf).commit = .ok o₁ ∧
      (o₁.repay key a.toU128).commit = .ok o' := by
  simp only [repay, bind_eq_ok, require_eq_ok, exists_const, pure_eq_ok, Prod.mk.injEq] at h
  obtain ⟨-, -, r₁, hacc, r₂, hrep, i, hf, o₁, ho₁, o₂, ho₂, rfl, rfl⟩ := h
  exact ⟨r₁, i, o₁, hacc, hrep, hf, ho₁, ho₂⟩

theorem depositCollateral_ok (h : depositCollateral market key r o a = .ok o') :
    (o.deposit key a).commit = .ok o' := by
  simp only [depositCollateral, bind_eq_ok, require_eq_ok, exists_const] at h
  obtain ⟨-, -, -, hd⟩ := h
  exact hd

theorem privateDepositCollateral_ok {init : Bool}
    (h : privateDepositCollateral market init key r o a = .ok o') :
    (o.deposit key a).commit = .ok o' := by
  simp only [privateDepositCollateral, bind_eq_ok, require_eq_ok, exists_const] at h
  obtain ⟨-, -, -, -, hd⟩ := h
  exact hd

theorem withdrawCollateral_ok (h : withdrawCollateral market clock key o a = .ok o') :
    ∃ i m, o.findDeposit key = .ok i ∧ m.toNat = o.deposits[i].marketValueSf.toNat *
        (o.deposits[i].depositedAmount.toNat - a.toNat) /
          max o.deposits[i].depositedAmount.toNat 1 ∧
      ((o.setDeposit i { o.deposits[i] with marketValueSf := m }).withdraw key a).commit = .ok o' ∧
      o'.withdrawHealthCheck = .ok () := by
  simp only [withdrawCollateral, bind_eq_ok, require_eq_ok, exists_const, okOr_eq_ok,
    Option.bind_eq_bind, Option.bind_eq_some_iff, checkedSub_eq_some, checkedMul_eq_some,
    checkedDiv_eq_some, pure_eq_ok, toNat_toU128, toNat_u128_max] at h
  obtain ⟨-, -, -, i, hf, left, hleft, m, ⟨m', hm', -, hm⟩, o₁, hwd, ⟨⟩, hcheck, rfl⟩ := h
  have hone : (1 : U128).toNat = 1 := rfl
  refine ⟨i, m, hf, ?_, hwd, hcheck⟩
  rw [hm, hm', hone, show left.toNat = o.deposits[i].depositedAmount.toNat - a.toNat by omega]

/-! ## Refreshes -/

theorem refreshReserve_ok {priceKey : Pubkey} {priceUpdate : Option PriceUpdate}
    (h : refreshReserve clock r priceKey priceUpdate = .ok r') :
    ∃ r₁ p t, r.accrueInterest clock.slot = .ok r₁ ∧
      r' = { r₁ with liquidity := { r₁.liquidity with
        marketPriceSf := p, priceLastUpdatedTs := t } } := by
  simp only [refreshReserve, bind_eq_ok, require_eq_ok, exists_const, pure_eq_ok,
    Prod.exists] at h
  obtain ⟨-, r₁, hacc, p, t, -, rfl⟩ := h
  exact ⟨r₁, p, t, hacc, rfl⟩

section Slots

variable {reserves : Pubkey → Option Reserve} {accounts : List Pubkey}

theorem readReserveFields_ok {reserve : Option Reserve} {fields : ReserveFields}
    (h : readReserveFields reserve = .ok fields) :
    ∃ r, reserve = some r ∧ fields.priceSf = r.liquidity.marketPriceSf ∧
      r.liquidity.totalSupply = .ok fields.totalLiquidity ∧
      fields.ctokenSupply = r.collateral.mintTotalSupply.toU128 ∧
      fields.liqThresholdPct = r.config.liquidationThresholdPct ∧
      fields.cumulativeRateSf = r.liquidity.cumulativeBorrowRateSf := by
  simp only [readReserveFields, bind_eq_ok, okOr_eq_ok, pure_eq_ok] at h
  obtain ⟨r, hr, t, ht, rfl⟩ := h
  exact ⟨r, hr, rfl, ht, rfl, rfl, rfl⟩

/-- A slot of the borrow loop is left alone, because it is free or its reserve has no price; or it
is accrued and valued. -/
theorem priceBorrowSlot_ok {i : Fin maxBorrowCountInReserve}
    (h : priceBorrowSlot reserves accounts o i = .ok o') :
    (o' = o ∧ (borrowLayout.Live o.borrows[i] →
      ∃ r, reserves o.borrows[i].borrowReserve = some r ∧ r.liquidity.marketPriceSf = 0)) ∨
    (∃ r o₁ mv, borrowLayout.Live o.borrows[i] ∧
      reserves o.borrows[i].borrowReserve = some r ∧ r.liquidity.marketPriceSf ≠ 0 ∧
      (o.accrueInterest i r.liquidity.cumulativeBorrowRateSf).commit = .ok o₁ ∧
      mv.toNat = o₁.borrows[i].borrowedAmountSf.toNat / 10 ^ 12 *
        r.liquidity.marketPriceSf.toNat ∧
      o' = o₁.setBorrow i { o₁.borrows[i] with marketValueSf := mv }) := by
  rw [priceBorrowSlot] at h
  by_cases hl : borrowLayout.Live o.borrows[i]
  · have hact : ¬ o.borrows[i].isActive = false := by
      rw [borrowLayout_live.mp hl]
      decide
    simp only [if_neg hact, bind_eq_ok, require_eq_ok, exists_const] at h
    obtain ⟨-, fields, hfields, h⟩ := h
    obtain ⟨r, hr, hprice, -, -, -, hrate⟩ := readReserveFields_ok hfields
    by_cases hp0 : fields.priceSf = 0
    · rw [if_pos hp0, pure_eq_ok] at h
      exact .inl ⟨h, fun _ => ⟨r, hr, hprice ▸ hp0⟩⟩
    · simp only [if_neg hp0, bind_eq_ok, okOr_eq_ok, checkedMul_eq_some, pure_eq_ok] at h
      obtain ⟨o₁, ho₁, mv, hmv, rfl⟩ := h
      rw [hrate] at ho₁
      rw [hprice, BitVec.toNat_udiv, toNat_rateScale] at hmv
      exact .inr ⟨r, o₁, mv, hl, hr, hprice ▸ hp0, ho₁, hmv, rfl⟩
  · rw [if_pos (Bool.eq_false_iff.mpr (borrowLayout_live.not.mp hl)), pure_eq_ok] at h
    exact .inl ⟨h, fun hlive => absurd hlive hl⟩

/-- The same for the deposit loop, where only the cached value is written. -/
theorem priceDepositSlot_ok {i : Fin maxDepositsCountInReserve}
    (h : priceDepositSlot reserves accounts o i = .ok o') :
    (o' = o ∧ (depositLayout.Live o.deposits[i] →
      ∃ r, reserves o.deposits[i].depositReserve = some r ∧ r.liquidity.marketPriceSf = 0)) ∨
    (∃ r t u mv, depositLayout.Live o.deposits[i] ∧
      reserves o.deposits[i].depositReserve = some r ∧ r.liquidity.marketPriceSf ≠ 0 ∧
      r.liquidity.totalSupply = .ok t ∧
      underlyingOf o.deposits[i].depositedAmount.toU128 t r.collateral.mintTotalSupply.toU128 =
        .ok u ∧
      mv.toNat = u.toNat * r.liquidity.marketPriceSf.toNat *
        r.config.liquidationThresholdPct.toNat / 100 ∧
      o' = o.setDeposit i { o.deposits[i] with marketValueSf := mv }) := by
  rw [priceDepositSlot] at h
  by_cases hl : depositLayout.Live o.deposits[i]
  · have hact : ¬ o.deposits[i].isActive = false := by
      rw [depositLayout_live.mp hl]
      decide
    simp only [if_neg hact, bind_eq_ok, require_eq_ok, exists_const] at h
    obtain ⟨-, fields, hfields, h⟩ := h
    obtain ⟨r, hr, hprice, ht, hsupply, hpct, -⟩ := readReserveFields_ok hfields
    by_cases hp0 : fields.priceSf = 0
    · rw [if_pos hp0, pure_eq_ok] at h
      exact .inl ⟨h, fun _ => ⟨r, hr, hprice ▸ hp0⟩⟩
    · simp only [if_neg hp0, bind_eq_ok, okOr_eq_ok, Option.bind_eq_bind,
        Option.bind_eq_some_iff, checkedMul_eq_some, checkedDiv_eq_some, pure_eq_ok] at h
      obtain ⟨u, hu, mv, ⟨m₁, hm₁, m₂, hm₂, -, hmv⟩, rfl⟩ := h
      rw [hsupply] at hu
      refine .inr ⟨r, _, u, mv, hl, hr, hprice ▸ hp0, ht, hu, ?_, rfl⟩
      rw [hmv, hm₂, hm₁, hprice, hpct, toNat_u8_toU128]
      rfl
  · rw [if_pos (Bool.eq_false_iff.mpr (depositLayout_live.not.mp hl)), pure_eq_ok] at h
    exact .inl ⟨h, fun hlive => absurd hlive hl⟩

/-- What a refresh makes of one borrow slot: the same reserve, and the debt either as it was or
brought to that reserve's index. -/
def Grown (reserves : Pubkey → Option Reserve) (b b' : ObligationLiquidity) : Prop :=
  b'.borrowReserve = b.borrowReserve ∧
  ((b'.borrowedAmountSf = b.borrowedAmountSf ∧
      b'.cumulativeBorrowRateSf = b.cumulativeBorrowRateSf) ∨
    ∃ r, reserves b.borrowReserve = some r ∧
      b.cumulativeBorrowRateSf.toNat < r.liquidity.cumulativeBorrowRateSf.toNat ∧
      0 < b.cumulativeBorrowRateSf.toNat ∧
      b'.cumulativeBorrowRateSf = r.liquidity.cumulativeBorrowRateSf ∧
      b'.borrowedAmountSf.toNat = b.borrowedAmountSf.toNat *
        r.liquidity.cumulativeBorrowRateSf.toNat / b.cumulativeBorrowRateSf.toNat)

theorem Grown.refl (reserves : Pubkey → Option Reserve) (b : ObligationLiquidity) :
    Grown reserves b b := ⟨rfl, .inl ⟨rfl, rfl⟩⟩

theorem priceBorrowSlot_grown {i : Fin maxBorrowCountInReserve}
    (h : priceBorrowSlot reserves accounts o i = .ok o') :
    o.SameHolder o' ∧ o'.deposits = o.deposits ∧
      (∀ j : Fin maxBorrowCountInReserve, j ≠ i → o'.borrows[j] = o.borrows[j]) ∧
      Grown reserves o.borrows[i] o'.borrows[i] := by
  rcases priceBorrowSlot_ok h with ⟨rfl, -⟩ | ⟨r, o₁, mv, -, hr, -, ho₁, -, rfl⟩
  · exact ⟨.refl _, rfl, fun _ _ => rfl, .refl _ _⟩
  · have hset : (o₁.setBorrow i { o₁.borrows[i] with marketValueSf := mv }).borrows[i] =
        { o₁.borrows[i] with marketValueSf := mv } := getElem_set_fin_self _ i _
    have hrest (j : Fin maxBorrowCountInReserve) (hj : j ≠ i) :
        (o₁.setBorrow i { o₁.borrows[i] with marketValueSf := mv }).borrows[j] =
          o₁.borrows[j] := getElem_set_fin_ne _ _ (Ne.symm hj)
    rcases Obligation.accrueInterest_ok ho₁ with rfl | ⟨-, hlt, hpos, d, hd, rfl⟩
    · refine ⟨⟨rfl, rfl⟩, rfl, hrest, ?_⟩
      rw [hset]
      exact ⟨rfl, .inl ⟨rfl, rfl⟩⟩
    · have hgrown : (o.grownBorrow i r.liquidity.cumulativeBorrowRateSf d).borrows[i] =
          { o.borrows[i] with borrowedAmountSf := d,
                              cumulativeBorrowRateSf := r.liquidity.cumulativeBorrowRateSf } :=
        getElem_set_fin_self _ i _
      refine ⟨⟨rfl, rfl⟩, rfl, fun j hj => ?_, ?_⟩
      · rw [hrest j hj]
        exact getElem_set_fin_ne _ _ (Ne.symm hj)
      · rw [hset, hgrown]
        exact ⟨rfl, .inr ⟨r, hr, hlt, hpos, rfl, hd⟩⟩

/-- What a refresh leaves of one deposit slot: everything but the cached value. -/
def Revalued (c c' : ObligationCollateral) : Prop :=
  c'.depositReserve = c.depositReserve ∧ c'.depositedAmount = c.depositedAmount

theorem priceDepositSlot_revalued {i : Fin maxDepositsCountInReserve}
    (h : priceDepositSlot reserves accounts o i = .ok o') :
    o.SameHolder o' ∧ o'.borrows = o.borrows ∧
      ∀ j : Fin maxDepositsCountInReserve, Revalued o.deposits[j] o'.deposits[j] := by
  rcases priceDepositSlot_ok h with ⟨rfl, -⟩ | ⟨r, t, u, mv, -, -, -, -, -, -, rfl⟩
  · exact ⟨.refl _, rfl, fun _ => ⟨rfl, rfl⟩⟩
  · refine ⟨⟨rfl, rfl⟩, rfl, fun j => ?_⟩
    rw [Obligation.setDeposit_deposits, getElem_set_fin]
    split
    case isTrue hij => exact hij ▸ ⟨rfl, rfl⟩
    case isFalse => exact ⟨rfl, rfl⟩

/-- After `m` iterations of the borrow loop. -/
structure BorrowLoop (reserves : Pubkey → Option Reserve) (o o' : Obligation) (m : Nat) : Prop where
  holder : o.SameHolder o'
  deposits : o'.deposits = o.deposits
  done : ∀ i : Fin maxBorrowCountInReserve, Grown reserves o.borrows[i] o'.borrows[i]
  todo : ∀ i : Fin maxBorrowCountInReserve, m ≤ i.val → o'.borrows[i] = o.borrows[i]

theorem BorrowLoop.step {o₀ : Obligation} {m : Nat} (h : BorrowLoop reserves o₀ o m)
    (hstep : priceBorrow reserves accounts o m = .ok o') :
    BorrowLoop reserves o₀ o' (m + 1) := by
  unfold priceBorrow at hstep
  split at hstep
  case isFalse => cases hstep
  case isTrue hm =>
    obtain ⟨hholder, hdep, hother, hgrown⟩ := priceBorrowSlot_grown hstep
    refine ⟨h.holder.trans hholder, hdep.trans h.deposits, fun i => ?_, fun i hi => ?_⟩
    · by_cases him : i = ⟨m, hm⟩
      · rw [him, ← h.todo ⟨m, hm⟩ (le_refl m)]
        exact hgrown
      · rw [hother i him]
        exact h.done i
    · have him : i ≠ ⟨m, hm⟩ := by
        intro he
        rw [he] at hi
        exact absurd hi (Nat.not_succ_le_self m)
      rw [hother i him]
      exact h.todo i (Nat.le_of_succ_le hi)

/-- After some iterations of the deposit loop. -/
structure DepositLoop (o o' : Obligation) : Prop where
  holder : o.SameHolder o'
  borrows : o'.borrows = o.borrows
  done : ∀ i : Fin maxDepositsCountInReserve, Revalued o.deposits[i] o'.deposits[i]

theorem DepositLoop.step {o₀ : Obligation} {m : Nat} (h : DepositLoop o₀ o)
    (hstep : priceDeposit reserves accounts o m = .ok o') : DepositLoop o₀ o' := by
  unfold priceDeposit at hstep
  split at hstep
  case isFalse => cases hstep
  case isTrue hm =>
    obtain ⟨hholder, hbor, hrev⟩ := priceDepositSlot_revalued hstep
    refine ⟨h.holder.trans hholder, hbor.trans h.borrows, fun i => ?_⟩
    exact ⟨(hrev i).1.trans (h.done i).1, (hrev i).2.trans (h.done i).2⟩

/-- A refresh grows debts and revalues deposits, slot by slot, and does nothing else. -/
theorem refreshObligation_ok (h : refreshObligation reserves accounts clock o = .ok o') :
    o.SameHolder o' ∧
      (∀ i : Fin maxBorrowCountInReserve, Grown reserves o.borrows[i] o'.borrows[i]) ∧
      ∀ i : Fin maxDepositsCountInReserve, Revalued o.deposits[i] o'.deposits[i] := by
  simp only [refreshObligation, bind_eq_ok, pure_eq_ok] at h
  obtain ⟨o₁, ho₁, o₂, ho₂, rfl⟩ := h
  have hb : BorrowLoop reserves o o₁ o.borrowsCount.toNat :=
    foldlM_range_invariant (P := fun m t => BorrowLoop reserves o t m)
      ⟨.refl o, rfl, fun _ => .refl _ _, fun _ _ => rfl⟩
      (fun m s s' _ hs hstep => hs.step hstep) ho₁
  have hd : DepositLoop o₁ o₂ :=
    foldlM_range_invariant (P := fun _ t => DepositLoop o₁ t)
      ⟨.refl o₁, rfl, fun _ => ⟨rfl, rfl⟩⟩ (fun m s s' _ hs hstep => hs.step hstep) ho₂
  have hholder : o.SameHolder o₂ := hb.holder.trans hd.holder
  refine ⟨⟨hholder.owner, hholder.lendingMarket⟩, fun i => ?_, fun i => ?_⟩
  · show Grown reserves o.borrows[i] o₂.borrows[i]
    rw [hd.borrows]
    exact hb.done i
  · have hrev := hd.done i
    rw [hb.deposits] at hrev
    exact hrev

end Slots

/-! ## Liquidation -/

/-- `ctokensFor` without its bounds. -/
def boughtCtokens (actualRepay repayPrice withdrawPrice total supply bonusBps : ℕ) : ℕ :=
  let underlying := actualRepay * repayPrice * (10000 + bonusBps) / 10000 / withdrawPrice
  if supply = 0 ∨ total = 0 then underlying else underlying * supply / total

theorem ctokensFor_ok {actualRepay : U64} {p q t n b c : U128}
    (h : ctokensFor actualRepay p q t n b = .ok c) :
    c.toNat = boughtCtokens actualRepay.toNat p.toNat q.toNat t.toNat n.toNat b.toNat := by
  have hbps : bpsScaler.toNat = 10000 := rfl
  have hzero (x : U128) : x = 0 ↔ x.toNat = 0 := BitVec.toNat_inj.symm
  simp only [ctokensFor, bind_eq_ok, okOr_eq_ok, orAbort_eq_ok, checkedMul_eq_some,
    checkedAdd_eq_some, checkedDiv_eq_some, Option.bind_eq_bind, Option.bind_eq_some_iff,
    toNat_toU128] at h
  obtain ⟨v, hv, f, hf, w, ⟨m, hm, -, hw⟩, u, ⟨-, hu⟩, h⟩ := h
  have hunder : u.toNat =
      actualRepay.toNat * p.toNat * (10000 + b.toNat) / 10000 / q.toNat := by
    rw [hu, hw, hm, hv, hf, hbps]
  rw [boughtCtokens, ← hunder]
  simp only [hzero] at h
  split at h
  case isTrue hnone =>
    cases h
    rw [if_pos hnone]
  case isFalse hsome =>
    simp only [okOr_eq_ok, Option.bind_eq_some_iff, checkedMul_eq_some, checkedDiv_eq_some] at h
    obtain ⟨m', hm', -, hc⟩ := h
    rw [if_neg hsome, hc, hm']

/-- `ctokensFor` fails on overflow alone. -/
theorem exists_ctokensFor {actualRepay : U64} {p w total supply bonus : U128} (hw : w.toNat ≠ 0)
    (hfactor : 10000 + bonus.toNat < 2 ^ 128)
    (hbonus : actualRepay.toNat * p.toNat * (10000 + bonus.toNat) < 2 ^ 128)
    (hshares : actualRepay.toNat * p.toNat * (10000 + bonus.toNat) / 10000 / w.toNat *
      supply.toNat < 2 ^ 128) :
    ∃ ctokens, ctokensFor actualRepay p w total supply bonus = .ok ctokens := by
  have hbps : bpsScaler.toU128.toNat = 10000 := rfl
  have hvalue : actualRepay.toNat * p.toNat < 2 ^ 128 :=
    Nat.lt_of_le_of_lt (Nat.le_mul_of_pos_right _ (by omega)) hbonus
  obtain ⟨v, hv, hval⟩ : ∃ v, checkedMul actualRepay.toU128 p = some v ∧
      v.toNat = actualRepay.toNat * p.toNat := by
    rw [← toNat_toU128]
    exact exists_checkedMul (by rwa [toNat_toU128])
  obtain ⟨f, hf, hfac⟩ := exists_checkedAdd (x := bpsScaler.toU128) (y := bonus) hfactor
  rw [hbps] at hfac
  obtain ⟨m, hm, hmul⟩ := exists_checkedMul (x := v) (y := f) (by rwa [hval, hfac])
  obtain ⟨b, hb, hbon⟩ := exists_checkedDiv (x := m) (y := bpsScaler.toU128) (by decide)
  obtain ⟨u, hu, hund⟩ := exists_checkedDiv (x := b) hw
  have hunder : u.toNat =
      actualRepay.toNat * p.toNat * (10000 + bonus.toNat) / 10000 / w.toNat := by
    rw [hund, hbon, hmul, hval, hfac, hbps]
  simp only [ctokensFor, hv, hf, okOr_some, orAbort, orFail_some, ok_bind, Option.bind_eq_bind,
    Option.bind_some, hm, hb, hu]
  -- a pool without cTokens or without supply converts one to one
  split
  case isTrue => exact ⟨u, rfl⟩
  case isFalse hsome =>
    obtain ⟨n, hn, -⟩ := exists_checkedMul (x := u) (y := supply) (by rwa [hunder])
    have htotal : total.toNat ≠ 0 := (ne_zero_iff_toNat_pos.mpr (not_or.mp hsome).2).ne'
    obtain ⟨ct, hct, -⟩ := exists_checkedDiv (x := n) htotal
    rw [hn, Option.bind_some, hct]
    exact ⟨ct, rfl⟩

/-- A liquidation of either kind: both reserves accrued, the debt brought to its index, at most half
of it repaid, and the cTokens this buys, as far as there are any. -/
structure Seizes (clock : Clock) (repayKey withdrawKey : Pubkey)
    (reserves : Pubkey → Option Reserve) (o : Obligation) (a : U64) (s : Seizure)
    (r r₁ q q₁ : Reserve) (i : Fin maxBorrowCountInReserve) (j : Fin maxDepositsCountInReserve)
    (o₁ : Obligation) : Prop where
  repayReserve : reserves repayKey = some r
  repayAccrued : r.accrueInterest clock.slot = .ok r₁
  withdrawReserve : store reserves repayKey r₁ withdrawKey = some q
  withdrawAccrued : q.accrueInterest clock.slot = .ok q₁
  repayPrice : r₁.liquidity.marketPriceSf ≠ 0
  withdrawPrice : q₁.liquidity.marketPriceSf ≠ 0
  borrow : o.findBorrow repayKey = .ok i
  accrued : (o.accrueInterest i r₁.liquidity.cumulativeBorrowRateSf).commit = .ok o₁
  repaid : s.actualRepay.toNat =
    min a.toNat (o₁.borrows[i].borrowedAmountSf.toNat / 10 ^ 12 * 50 / 100 % 2 ^ 64)
  deposit : o₁.findDeposit withdrawKey = .ok j
  bought : ∃ t c, q₁.liquidity.totalSupply = .ok t ∧
    ctokensFor s.actualRepay r₁.liquidity.marketPriceSf q₁.liquidity.marketPriceSf t
      q₁.collateral.mintTotalSupply.toU128 q₁.config.liquidationBonusPct.toU128 = .ok c ∧
    s.ctokensToSeize.toNat = min c.toNat o₁.deposits[j].depositedAmount.toNat
  obligation : ∃ o₂, (o₁.repay repayKey s.actualRepay.toU128).commit = .ok o₂ ∧
    (o₂.withdraw withdrawKey s.ctokensToSeize).commit = .ok s.obligation
  reserves : ∃ r₂ r₃, store (store reserves repayKey r₁) withdrawKey q₁ repayKey = some r₂ ∧
    r₂.repay s.actualRepay = .ok r₃ ∧
    s.reserves = store (store (store reserves repayKey r₁) withdrawKey q₁) repayKey r₃

theorem seize_parts {gate : Obligation → Result Unit} {repayKey withdrawKey : Pubkey}
    {reserves : Pubkey → Option Reserve} {s : Seizure}
    (h : seize gate clock repayKey withdrawKey reserves o a = .ok s) :
    ∃ r r₁ q q₁ i j o₁, Seizes clock repayKey withdrawKey reserves o a s r r₁ q q₁ i j o₁ := by
  simp only [seize, accruePriced, bind_eq_ok, load_eq_ok, require_eq_ok, exists_const,
    orAbort_eq_ok, checkedMul_eq_some, pure_eq_ok] at h
  obtain ⟨r, hr, r₁, ⟨-, r₁', hacc, hrp, rfl⟩, q, hq, q₁, ⟨-, q₁', hqacc, hqp, rfl⟩, t, ht, -,
    ⟨⟩, -, i, hf, o₁, ho₁, scaled, hscaled, -, c, hc, j, hj, -, o₂, ho₂, o₃, ho₃, r₂, hr₂, r₃, hr₃,
    rfl⟩ := h
  have hzero {x : U128} (hx : 0 < x) : x ≠ 0 := by
    rintro rfl
    exact absurd (BitVec.lt_def.mp hx) (Nat.lt_irrefl _)
  refine ⟨r, r₁, q, q₁, i, j, o₁, ?_⟩
  exact {
    repayReserve := hr
    repayAccrued := hacc
    withdrawReserve := hq
    withdrawAccrued := hqacc
    repayPrice := hzero hrp
    withdrawPrice := hzero hqp
    borrow := hf
    accrued := ho₁
    -- the close factor is applied to the whole units of the debt, in `u128`, and cut to `u64`
    repaid := by
      have hhalf : maxLiquidationCloseFactorPct.toNat = 50 := rfl
      have hpct : percentScaler.toNat = 100 := rfl
      rw [toNat_u64_min, toNat_toU64, BitVec.toNat_udiv, hscaled, BitVec.toNat_udiv,
        toNat_rateScale, hhalf, hpct]
    deposit := hj
    bought := by
      refine ⟨t, c, ht, hc, ?_⟩
      -- the minimum with a `u64` fits, so the cast back loses nothing
      have hlt : (U128.min c o₁.deposits[j].depositedAmount.toU128).toNat < 2 ^ 64 := by
        rw [toNat_u128_min, toNat_toU128]
        exact Nat.lt_of_le_of_lt (Nat.min_le_right _ _) (BitVec.isLt _)
      rw [toNat_toU64_of_lt hlt, toNat_u128_min, toNat_toU128]
    obligation := ⟨o₂, ho₂, ho₃⟩
    reserves := ⟨r₂, r₃, hr₂, hr₃, rfl⟩ }

section Seizes

variable {repayKey withdrawKey : Pubkey} {reserves : Pubkey → Option Reserve} {s : Seizure}
  {r₁ q q₁ : Reserve} {i : Fin maxBorrowCountInReserve} {j : Fin maxDepositsCountInReserve}
  {o₁ : Obligation}

theorem Seizes.deposits_accrued
    (h : Seizes clock repayKey withdrawKey reserves o a s r r₁ q q₁ i j o₁) :
    o₁.deposits = o.deposits ∧ o₁.depositsCount = o.depositsCount := by
  rcases Obligation.accrueInterest_ok h.accrued with rfl | ⟨-, -, -, d, -, rfl⟩
  · exact ⟨rfl, rfl⟩
  · exact ⟨rfl, rfl⟩

theorem Seizes.findDeposit (h : Seizes clock repayKey withdrawKey reserves o a s r r₁ q q₁ i j o₁) :
    o.findDeposit withdrawKey = .ok j := by
  rw [← h.deposit, Obligation.findDeposit, Obligation.findDeposit, h.deposits_accrued.1]

/-- What is seized, in numbers that do not wrap. -/
theorem Seizes.seized (h : Seizes clock repayKey withdrawKey reserves o a s r r₁ q q₁ i j o₁) :
    s.ctokensToSeize.toNat =
      min (boughtCtokens s.actualRepay.toNat r₁.liquidity.marketPriceSf.toNat
        q₁.liquidity.marketPriceSf.toNat q₁.liquidity.totalSupplyOrZero.toNat
        q₁.collateral.mintTotalSupply.toNat q₁.config.liquidationBonusPct.toNat)
      o.deposits[j].depositedAmount.toNat := by
  obtain ⟨t, c, ht, hc, hbought⟩ := h.bought
  have hc := ctokensFor_ok hc
  rw [toNat_toU128, toNat_u16_toU128, ← ReserveLiquidity.totalSupplyOrZero_of_ok ht] at hc
  rw [hbought, h.deposits_accrued.1, hc]

/-- The reserve drawn on, accrued once, also when it is the repaid one. -/
theorem Seizes.withdrawn (h : Seizes clock repayKey withdrawKey reserves o a s r r₁ q q₁ i j o₁) :
    ∃ q₀, reserves withdrawKey = some q₀ ∧ q₀.accrueInterest clock.slot = .ok q₁ := by
  have hq := h.withdrawReserve
  have hacc := h.withdrawAccrued
  by_cases hk : withdrawKey = repayKey
  · rw [hk, store_self] at hq
    cases hq
    rw [Reserve.accrueInterest_current (Reserve.accrues_of_ok h.repayAccrued).slot_le] at hacc
    cases hacc
    exact ⟨r, hk ▸ h.repayReserve, h.repayAccrued⟩
  · rw [store_of_ne _ _ hk] at hq
    exact ⟨q, hq, hacc⟩

/-- The repaid reserve, accrued once, also when it is the one drawn on. -/
theorem Seizes.paid (h : Seizes clock repayKey withdrawKey reserves o a s r r₁ q q₁ i j o₁) :
    ∃ r₃, r₁.repay s.actualRepay = .ok r₃ ∧
      s.reserves = store (store (store reserves repayKey r₁) withdrawKey q₁) repayKey r₃ := by
  obtain ⟨r₂, r₃, hr₂, hr₃, hreserves⟩ := h.reserves
  refine ⟨r₃, ?_, hreserves⟩
  by_cases hk : withdrawKey = repayKey
  · have hq := h.withdrawReserve
    have hacc := h.withdrawAccrued
    rw [hk, store_self] at hq hr₂
    cases hq
    rw [Reserve.accrueInterest_current (Reserve.accrues_of_ok h.repayAccrued).slot_le] at hacc
    cases hacc
    cases hr₂
    exact hr₃
  · rw [store_of_ne _ _ (Ne.symm hk), store_self] at hr₂
    cases hr₂
    exact hr₃

end Seizes

/-- The method calls alone. -/
theorem seize_ok {gate : Obligation → Result Unit} {repayKey withdrawKey : Pubkey}
    {reserves : Pubkey → Option Reserve} {s : Seizure}
    (h : seize gate clock repayKey withdrawKey reserves o a = .ok s) :
    ∃ r r₁ q q₁ i o₁ o₂ r₂ r₃,
      reserves repayKey = some r ∧ r.accrueInterest clock.slot = .ok r₁ ∧
      store reserves repayKey r₁ withdrawKey = some q ∧ q.accrueInterest clock.slot = .ok q₁ ∧
      o.findBorrow repayKey = .ok i ∧
      (o.accrueInterest i r₁.liquidity.cumulativeBorrowRateSf).commit = .ok o₁ ∧
      (o₁.repay repayKey s.actualRepay.toU128).commit = .ok o₂ ∧
      (o₂.withdraw withdrawKey s.ctokensToSeize).commit = .ok s.obligation ∧
      store (store reserves repayKey r₁) withdrawKey q₁ repayKey = some r₂ ∧
      r₂.repay s.actualRepay = .ok r₃ ∧
      s.reserves = store (store (store reserves repayKey r₁) withdrawKey q₁) repayKey r₃ := by
  obtain ⟨r, r₁, q, q₁, i, j, o₁, hs⟩ := seize_parts h
  obtain ⟨o₂, ho₂, ho₃⟩ := hs.obligation
  obtain ⟨r₂, r₃, hr₂, hr₃, hreserves⟩ := hs.reserves
  exact ⟨r, r₁, q, q₁, i, o₁, o₂, r₂, r₃, hs.repayReserve, hs.repayAccrued, hs.withdrawReserve,
    hs.withdrawAccrued, hs.borrow, hs.accrued, ho₂, ho₃, hr₂, hr₃, hreserves⟩

theorem liquidate_ok {repayKey withdrawKey : Pubkey} {reserves : Pubkey → Option Reserve}
    {s : Seizure} (h : liquidate market clock repayKey withdrawKey reserves o a = .ok s) :
    seize Obligation.liquidationGate clock repayKey withdrawKey reserves o a = .ok s := by
  simp only [liquidate, bind_eq_ok, require_eq_ok, exists_const] at h
  obtain ⟨-, -, hs⟩ := h
  exact hs

theorem executePrivateLiquidation_ok {flag : Bool} {repayKey withdrawKey : Pubkey}
    {reserves : Pubkey → Option Reserve} {s : Seizure}
    (h : executePrivateLiquidation market flag clock repayKey withdrawKey reserves o a = .ok s) :
    flag = true ∧
      seize (fun _ => .ok ()) clock repayKey withdrawKey reserves o a = .ok s := by
  simp only [executePrivateLiquidation, bind_eq_ok, require_eq_ok, exists_const] at h
  obtain ⟨-, hflag, -, -, hs⟩ := h
  exact ⟨hflag, hs⟩

/-! ## Collateral and holders

What each ledger part does to the deposits of the obligation, and that it stays the same user's
obligation in the same market. -/

theorem frame_accrueExisting {c : U128} (h : o.accrueExisting key c = .ok o') :
    o.SameHolder o' ∧ o'.deposits = o.deposits := by
  unfold Obligation.accrueExisting at h
  split at h
  case h_1 => exact Obligation.frame_accrueInterest h
  case h_2 =>
    cases h
    exact ⟨.refl _, rfl⟩

theorem Borrows.frame (h : Borrows clock key r o a r' o') (hk : key ≠ default) :
    o.SameHolder o' ∧ o'.deposits = o.deposits := by
  obtain ⟨r₁, o₁, -, -, ho₁, hb⟩ := h.steps
  have hacc := frame_accrueExisting ho₁
  have hbor := Obligation.frame_borrow hk hb
  exact ⟨hacc.1.trans hbor.1, hbor.2.trans hacc.2⟩

theorem frame_repay (h : repay clock key r o a = .ok (r', o')) :
    o.SameHolder o' ∧ o'.deposits = o.deposits := by
  obtain ⟨r₁, i, o₁, -, -, -, ho₁, hrep⟩ := repay_ok h
  have hacc := Obligation.frame_accrueInterest ho₁
  have hpay := Obligation.frame_repay hrep
  exact ⟨hacc.1.trans hpay.1, hpay.2.trans hacc.2⟩

theorem frame_refreshObligation {reserves : Pubkey → Option Reserve} {accounts : List Pubkey}
    (h : refreshObligation reserves accounts clock o = .ok o') :
    o.SameHolder o' ∧ ∀ x, o'.deposited x = o.deposited x := by
  obtain ⟨hholder, -, hrev⟩ := refreshObligation_ok h
  exact ⟨hholder, Obligation.deposited_congr_slots hrev⟩

theorem frame_withdrawCollateral (h : withdrawCollateral market clock key o a = .ok o') :
    o.SameHolder o' ∧ ∀ x, x ≠ default →
      o'.deposited x + (if x = key then a.toNat else 0) = o.deposited x := by
  obtain ⟨i, m, -, -, hwd, -⟩ := withdrawCollateral_ok h
  have hholder := Obligation.sameHolder_withdraw hwd
  refine ⟨⟨hholder.owner, hholder.lendingMarket⟩, fun x hx => ?_⟩
  rw [Obligation.deposited_withdraw hwd hx]
  -- shrinking the cached value first changes no amount
  apply Obligation.deposited_congr_slots
  intro j
  rw [Obligation.setDeposit_deposits, getElem_set_fin]
  split
  case isTrue hij => exact hij ▸ ⟨rfl, rfl⟩
  case isFalse => exact ⟨rfl, rfl⟩

theorem frame_seize {gate : Obligation → Result Unit} {repayKey withdrawKey : Pubkey}
    {reserves : Pubkey → Option Reserve} {s : Seizure}
    (h : seize gate clock repayKey withdrawKey reserves o a = .ok s) :
    o.SameHolder s.obligation ∧ ∀ x, x ≠ default →
      s.obligation.deposited x + (if x = withdrawKey then s.ctokensToSeize.toNat else 0) =
        o.deposited x := by
  obtain ⟨r, r₁, q, q₁, i, o₁, o₂, r₂, r₃, -, -, -, -, -, ho₁, ho₂, ho₃, -, -, -⟩ := seize_ok h
  have hacc := Obligation.frame_accrueInterest ho₁
  have hpay := Obligation.frame_repay ho₂
  refine ⟨(hacc.1.trans hpay.1).trans (Obligation.sameHolder_withdraw ho₃), fun x hx => ?_⟩
  rw [Obligation.deposited_withdraw ho₃ hx, Obligation.deposited_congr hpay.2,
    Obligation.deposited_congr hacc.2]

/-! ## Liquidity and cTokens

What each ledger part does to the amounts its reserve records. -/

/-- Accruals, borrows and repayments leave the cToken supply alone. -/
theorem Borrows.reserve (h : Borrows clock key r o a r' o') :
    r'.liquidity.availableAmount.toNat + a.toNat = r.liquidity.availableAmount.toNat ∧
      r'.collateral = r.collateral := by
  obtain ⟨r₁, o₁, hacc, hb, -, -⟩ := h.steps
  have haccrues := Reserve.accrues_of_ok hacc
  obtain ⟨-, l', hl, rfl⟩ := Reserve.borrow_ok.mp hb
  obtain ⟨v, d, hv, -, rfl⟩ := ReserveLiquidity.borrow_ok.mp hl
  rw [haccrues.available] at hv
  exact ⟨hv, haccrues.collateral⟩

theorem reserve_deposit {m : U64} (h : deposit market clock r a = .ok (r', m)) :
    r'.liquidity.availableAmount.toNat = r.liquidity.availableAmount.toNat + a.toNat ∧
      r'.collateral.mintTotalSupply.toNat = r.collateral.mintTotalSupply.toNat + m.toNat := by
  obtain ⟨r₁, hacc, hdep⟩ := deposit_ok h
  have haccrues := Reserve.accrues_of_ok hacc
  obtain ⟨-, -, v, n, hv, hn, rfl⟩ := Reserve.depositLiquidity_ok hdep
  rw [haccrues.available] at hv
  rw [haccrues.collateral] at hn
  exact ⟨hv, hn⟩

theorem reserve_withdraw {l : U64} (h : withdraw market clock r a = .ok (r', l)) :
    r'.liquidity.availableAmount.toNat + l.toNat = r.liquidity.availableAmount.toNat ∧
      r'.collateral.mintTotalSupply.toNat + a.toNat = r.collateral.mintTotalSupply.toNat := by
  obtain ⟨r₁, hacc, hred⟩ := withdraw_ok h
  have haccrues := Reserve.accrues_of_ok hacc
  obtain ⟨-, v, n, hv, hn, rfl⟩ := Reserve.redeemCollateral_ok hred
  rw [haccrues.available] at hv
  rw [haccrues.collateral] at hn
  exact ⟨hv, hn⟩

theorem reserve_repay (h : repay clock key r o a = .ok (r', o')) :
    r'.liquidity.availableAmount.toNat = r.liquidity.availableAmount.toNat + a.toNat ∧
      r'.collateral = r.collateral := by
  obtain ⟨r₁, i, o₁, hacc, hrep, -, -, -⟩ := repay_ok h
  have haccrues := Reserve.accrues_of_ok hacc
  have hpaid := Reserve.available_repay hrep
  rw [haccrues.available] at hpaid
  exact ⟨hpaid, (Reserve.keepsTerms_of_repay hrep).collateral.trans haccrues.collateral⟩

theorem reserve_refresh {priceKey : Pubkey} {priceUpdate : Option PriceUpdate}
    (h : refreshReserve clock r priceKey priceUpdate = .ok r') :
    r'.liquidity.availableAmount = r.liquidity.availableAmount ∧ r'.collateral = r.collateral := by
  obtain ⟨r₁, p, t, hacc, rfl⟩ := refreshReserve_ok h
  have haccrues := Reserve.accrues_of_ok hacc
  exact ⟨haccrues.available, haccrues.collateral⟩

/-- A liquidation pays its repayment into one reserve; the two reserves may be the same. -/
theorem reserves_seize {gate : Obligation → Result Unit} {repayKey withdrawKey : Pubkey}
    {reserves : Pubkey → Option Reserve} {s : Seizure}
    (h : seize gate clock repayKey withdrawKey reserves o a = .ok s) (x : Pubkey) :
    amountIn (·.liquidity.availableAmount.toNat) s.reserves x =
        amountIn (·.liquidity.availableAmount.toNat) reserves x +
          (if x = repayKey then s.actualRepay.toNat else 0) ∧
      amountIn (·.collateral.mintTotalSupply.toNat) s.reserves x =
        amountIn (·.collateral.mintTotalSupply.toNat) reserves x := by
  obtain ⟨r, r₁, q, q₁, i, o₁, o₂, r₂, r₃, hr, hacc, hq, hqacc, -, -, -, -, hr₂, hr₃, hs⟩ :=
    seize_ok h
  have hracc := Reserve.accrues_of_ok hacc
  have hqacc := Reserve.accrues_of_ok hqacc
  have hcol := (Reserve.keepsTerms_of_repay hr₃).collateral
  rw [hs]
  constructor
  · rw [amountIn_store_add hr₂ (Reserve.available_repay hr₃),
      amountIn_store_same hq (congrArg BitVec.toNat hqacc.available),
      amountIn_store_same hr (congrArg BitVec.toNat hracc.available)]
  · have hsupply {c c' : ReserveCollateral} (h : c' = c) :
        c'.mintTotalSupply.toNat = c.mintTotalSupply.toNat := by rw [h]
    rw [amountIn_store_same hr₂ (hsupply hcol), amountIn_store_same hq (hsupply hqacc.collateral),
      amountIn_store_same hr (hsupply hracc.collateral)]

end Ledger

end VeilVault
