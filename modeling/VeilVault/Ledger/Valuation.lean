/-
# VeilVault.Ledger.Valuation — what a refresh writes, slot by slot.

`refresh_obligation` visits the counted prefixes.  A free slot and a slot whose reserve has no price
stay as they are; every other one is valued by the formula of its side (`Quote.depositValue`,
`Quote.debtValue`) at its reserve's present numbers, a debt after it was brought to the index.
-/
import VeilVault.Ledger.Effects
import VeilVault.Ledger.Quote

namespace VeilVault

open Kit Kit.Outcome

/-- The debt of a slot at an index, as `accrue_interest` computes it. -/
def ObligationLiquidity.debtAt (b : ObligationLiquidity) (c : U128) : ℕ :=
  if b.isActive = false ∨ c = b.cumulativeBorrowRateSf then b.borrowedAmountSf.toNat
  else b.borrowedAmountSf.toNat * c.toNat / b.cumulativeBorrowRateSf.toNat

namespace Obligation

variable {o o' : Obligation} {i : Fin maxBorrowCountInReserve} {c : U128}

theorem debtAt_of_accrueInterest (h : (o.accrueInterest i c).commit = .ok o') :
    o'.borrows[i].borrowedAmountSf.toNat = o.borrows[i].debtAt c := by
  have hspec := accrueInterest_spec o i c
  rw [commit_eq_ok.mp h] at hspec
  cases hspec with
  | inactive hi => exact (if_pos (.inl (Bool.eq_false_iff.mpr (borrowLayout_live.not.mp hi)))).symm
  | same _ heq => exact (if_pos (.inr heq)).symm
  | grown hi hlt hfit hpos d hd =>
      have hne : ¬ (o.borrows[i].isActive = false ∨ c = o.borrows[i].cumulativeBorrowRateSf) := by
        rintro (hdead | heq)
        · rw [borrowLayout_live.mp hi] at hdead
          cases hdead
        · exact absurd hlt (heq ▸ Nat.lt_irrefl _)
      rw [ObligationLiquidity.debtAt, if_neg hne, grownBorrow, setBorrow_borrows,
        getElem_set_fin_self]
      exact hd

end Obligation

namespace Ledger

variable {reserves : Pubkey → Option Reserve} {accounts : List Pubkey} {o o' : Obligation}
  {m : Nat}

/-- What a refresh makes of a deposit slot it visits. -/
inductive DepositValued (reserves : Pubkey → Option Reserve) (c : ObligationCollateral) :
    ObligationCollateral → Prop
  | free (hfree : ¬ depositLayout.Live c) : DepositValued reserves c c
  | unpriced {r : Reserve} (hr : reserves c.depositReserve = some r)
      (hzero : r.liquidity.marketPriceSf = 0) : DepositValued reserves c c
  | priced {r : Reserve} {mv : U128} (hl : depositLayout.Live c)
      (hr : reserves c.depositReserve = some r) (hpos : r.liquidity.marketPriceSf ≠ 0)
      (hmv : mv.toNat = r.quote.depositValue c.depositedAmount.toNat) :
      DepositValued reserves c { c with marketValueSf := mv }

/-- What a refresh makes of a borrow slot it visits. -/
inductive BorrowValued (reserves : Pubkey → Option Reserve) (b : ObligationLiquidity) :
    ObligationLiquidity → Prop
  | free (hfree : ¬ borrowLayout.Live b) : BorrowValued reserves b b
  | unpriced {r : Reserve} (hr : reserves b.borrowReserve = some r)
      (hzero : r.liquidity.marketPriceSf = 0) : BorrowValued reserves b b
  | priced {r : Reserve} {d mv : U128} (hl : borrowLayout.Live b)
      (hr : reserves b.borrowReserve = some r) (hpos : r.liquidity.marketPriceSf ≠ 0)
      (hrate : b.cumulativeBorrowRateSf.toNat ≤ r.liquidity.cumulativeBorrowRateSf.toNat)
      (hd : d.toNat = b.debtAt r.liquidity.cumulativeBorrowRateSf)
      (hmv : mv.toNat = r.quote.debtValue d.toNat) :
      BorrowValued reserves b
        { b with
          borrowedAmountSf := d
          cumulativeBorrowRateSf := r.liquidity.cumulativeBorrowRateSf
          marketValueSf := mv }

theorem DepositValued.key {c c' : ObligationCollateral} (h : DepositValued reserves c c') :
    c'.depositReserve = c.depositReserve := by
  cases h with
  | free | unpriced | priced => rfl

theorem BorrowValued.key {b b' : ObligationLiquidity} (h : BorrowValued reserves b b') :
    b'.borrowReserve = b.borrowReserve := by
  cases h with
  | free | unpriced | priced => rfl

/-- A slot whose reserve has a price ends at that price. -/
theorem DepositValued.value {c c' : ObligationCollateral} {k : Pubkey} {r : Reserve}
    (h : DepositValued reserves c c') (hk : c'.depositReserve = k) (hl : depositLayout.Live c')
    (hr : reserves k = some r) (hpos : r.liquidity.marketPriceSf ≠ 0) :
    c'.marketValueSf.toNat = r.quote.depositValue c'.depositedAmount.toNat := by
  subst hk
  cases h with
  | free hfree => exact absurd hl hfree
  | @unpriced r' hr' hzero =>
      obtain rfl : r' = r := Option.some.inj (hr'.symm.trans hr)
      exact absurd hzero hpos
  | @priced r' mv _ hr' _ hmv =>
      obtain rfl : r' = r := Option.some.inj (hr'.symm.trans hr)
      exact hmv

theorem BorrowValued.value {b b' : ObligationLiquidity} {k : Pubkey} {r : Reserve}
    (h : BorrowValued reserves b b') (hk : b'.borrowReserve = k) (hl : borrowLayout.Live b')
    (hr : reserves k = some r) (hpos : r.liquidity.marketPriceSf ≠ 0) :
    b'.marketValueSf.toNat = r.quote.debtValue b'.borrowedAmountSf.toNat := by
  subst hk
  cases h with
  | free hfree => exact absurd hl hfree
  | @unpriced r' hr' hzero =>
      obtain rfl : r' = r := Option.some.inj (hr'.symm.trans hr)
      exact absurd hzero hpos
  | @priced r' d mv _ hr' _ _ _ hmv =>
      obtain rfl : r' = r := Option.some.inj (hr'.symm.trans hr)
      exact hmv

/-! ## One slot -/

/-- The underlying of an amount of cTokens, as `Quote.depositValue` has it. -/
theorem toNat_underlyingOf {r : Reserve} {amount : U64} {t u : U128}
    (ht : r.liquidity.totalSupply = .ok t)
    (h : underlyingOf amount.toU128 t r.collateral.mintTotalSupply.toU128 = .ok u) :
    u.toNat = if r.quote.supply = 0 then 0
      else amount.toNat * r.quote.total / r.quote.supply := by
  have hzero : r.collateral.mintTotalSupply.toU128 = 0 ↔ r.quote.supply = 0 := by
    rw [← BitVec.toNat_inj, toNat_toU128]
    rfl
  rw [underlyingOf] at h
  simp only [hzero] at h
  split at h
  case isTrue hz =>
    cases h
    rw [if_pos hz]
    rfl
  case isFalse hz =>
    simp only [okOr_eq_ok, Option.bind_eq_bind, Option.bind_eq_some_iff, checkedMul_eq_some,
      checkedDiv_eq_some] at h
    obtain ⟨m, hm, -, hu⟩ := h
    rw [if_neg hz, hu, hm, toNat_toU128, toNat_toU128, Reserve.quote,
      ReserveLiquidity.totalSupplyOrZero_of_ok ht]

theorem priceDepositSlot_valued {i : Fin maxDepositsCountInReserve}
    (h : priceDepositSlot reserves accounts o i = .ok o') :
    ∃ c, DepositValued reserves o.deposits[i] c ∧ o' = o.setDeposit i c := by
  rcases priceDepositSlot_ok h with ⟨rfl, hskip⟩ | ⟨r, t, u, mv, hl, hr, hpos, ht, hu, hmv, rfl⟩
  · refine ⟨o'.deposits[i], ?_, (Obligation.setDeposit_self o' i).symm⟩
    by_cases hl : depositLayout.Live o'.deposits[i]
    · obtain ⟨r, hr, hzero⟩ := hskip hl
      exact .unpriced hr hzero
    · exact .free hl
  · refine ⟨_, .priced hl hr hpos ?_, rfl⟩
    rw [hmv, toNat_underlyingOf ht hu]
    rfl

theorem priceBorrowSlot_valued {i : Fin maxBorrowCountInReserve}
    (h : priceBorrowSlot reserves accounts o i = .ok o') :
    ∃ b, BorrowValued reserves o.borrows[i] b ∧ o' = o.setBorrow i b := by
  rcases priceBorrowSlot_ok h with ⟨rfl, hskip⟩ | ⟨r, o₁, mv, hl, hr, hpos, ho₁, hmv, rfl⟩
  · refine ⟨o'.borrows[i], ?_, (Obligation.setBorrow_self o' i).symm⟩
    by_cases hl : borrowLayout.Live o'.borrows[i]
    · obtain ⟨r, hr, hzero⟩ := hskip hl
      exact .unpriced hr hzero
    · exact .free hl
  · have hdebt := Obligation.debtAt_of_accrueInterest ho₁
    have hspec := Obligation.accrueInterest_spec o i r.liquidity.cumulativeBorrowRateSf
    rw [commit_eq_ok.mp ho₁] at hspec
    cases hspec with
    | inactive hn => exact absurd hl hn
    | same _ heq =>
        refine ⟨_, .priced hl hr hpos (heq ▸ le_refl _) hdebt hmv, ?_⟩
        rw [heq]
    | grown _ hlt hfit hpos' d hd =>
        have hslot : (o.grownBorrow i r.liquidity.cumulativeBorrowRateSf d).borrows[i] =
            { o.borrows[i] with
              borrowedAmountSf := d
              cumulativeBorrowRateSf := r.liquidity.cumulativeBorrowRateSf } :=
          getElem_set_fin_self _ i _
        rw [hslot] at hmv hdebt
        refine ⟨_, .priced hl hr hpos (Nat.le_of_lt hlt) hdebt hmv, ?_⟩
        rw [hslot]
        exact Obligation.setBorrow_setBorrow o i _ _

/-! ## The loops -/

/-- After `m` iterations of the borrow loop. -/
structure BorrowsValued (reserves : Pubkey → Option Reserve) (o o' : Obligation) (m : Nat) :
    Prop where
  rest : { o' with borrows := o.borrows } = o
  done : ∀ i : Fin maxBorrowCountInReserve, i.val < m →
    BorrowValued reserves o.borrows[i] o'.borrows[i]
  todo : ∀ i : Fin maxBorrowCountInReserve, m ≤ i.val → o'.borrows[i] = o.borrows[i]

theorem BorrowsValued.step {o₀ : Obligation} (h : BorrowsValued reserves o₀ o m)
    (hstep : priceBorrow reserves accounts o m = .ok o') :
    BorrowsValued reserves o₀ o' (m + 1) := by
  unfold priceBorrow at hstep
  split at hstep
  case isFalse => cases hstep
  case isTrue hm =>
    obtain ⟨b, hb, rfl⟩ := priceBorrowSlot_valued hstep
    rw [h.todo ⟨m, hm⟩ (le_refl m)] at hb
    refine ⟨h.rest, fun i hi => ?_, fun i hi => ?_⟩
    · rw [Obligation.setBorrow_borrows, getElem_set_fin]
      split
      case isTrue him => exact him ▸ hb
      case isFalse him =>
        apply h.done i
        have hne : i.val ≠ m := fun he => him (Fin.ext he.symm)
        omega
    · have him : (⟨m, hm⟩ : Fin maxBorrowCountInReserve) ≠ i := by
        intro he
        rw [← he] at hi
        exact absurd hi (Nat.not_succ_le_self m)
      rw [Obligation.setBorrow_borrows, getElem_set_fin_ne _ _ him]
      exact h.todo i (Nat.le_of_succ_le hi)

/-- After `m` iterations of the deposit loop. -/
structure DepositsValued (reserves : Pubkey → Option Reserve) (o o' : Obligation) (m : Nat) :
    Prop where
  rest : { o' with deposits := o.deposits } = o
  done : ∀ i : Fin maxDepositsCountInReserve, i.val < m →
    DepositValued reserves o.deposits[i] o'.deposits[i]
  todo : ∀ i : Fin maxDepositsCountInReserve, m ≤ i.val → o'.deposits[i] = o.deposits[i]

theorem DepositsValued.step {o₀ : Obligation} (h : DepositsValued reserves o₀ o m)
    (hstep : priceDeposit reserves accounts o m = .ok o') :
    DepositsValued reserves o₀ o' (m + 1) := by
  unfold priceDeposit at hstep
  split at hstep
  case isFalse => cases hstep
  case isTrue hm =>
    obtain ⟨c, hc, rfl⟩ := priceDepositSlot_valued hstep
    rw [h.todo ⟨m, hm⟩ (le_refl m)] at hc
    refine ⟨h.rest, fun i hi => ?_, fun i hi => ?_⟩
    · rw [Obligation.setDeposit_deposits, getElem_set_fin]
      split
      case isTrue him => exact him ▸ hc
      case isFalse him =>
        apply h.done i
        have hne : i.val ≠ m := fun he => him (Fin.ext he.symm)
        omega
    · have him : (⟨m, hm⟩ : Fin maxDepositsCountInReserve) ≠ i := by
        intro he
        rw [← he] at hi
        exact absurd hi (Nat.not_succ_le_self m)
      rw [Obligation.setDeposit_deposits, getElem_set_fin_ne _ _ him]
      exact h.todo i (Nat.le_of_succ_le hi)

/-- The whole effect of a refresh. -/
structure Refreshed (reserves : Pubkey → Option Reserve) (clock : Clock) (o o' : Obligation) :
    Prop where
  holder : o.SameHolder o'
  borrowsCount : o'.borrowsCount = o.borrowsCount
  depositsCount : o'.depositsCount = o.depositsCount
  lastUpdate : o'.lastUpdate = ⟨clock.slot, clock.unixTimestamp⟩
  borrows : ∀ i : Fin maxBorrowCountInReserve,
    (i.val < o.borrowsCount.toNat → BorrowValued reserves o.borrows[i] o'.borrows[i]) ∧
      (o.borrowsCount.toNat ≤ i.val → o'.borrows[i] = o.borrows[i])
  deposits : ∀ i : Fin maxDepositsCountInReserve,
    (i.val < o.depositsCount.toNat → DepositValued reserves o.deposits[i] o'.deposits[i]) ∧
      (o.depositsCount.toNat ≤ i.val → o'.deposits[i] = o.deposits[i])

theorem refreshed {clock : Clock} (h : refreshObligation reserves accounts clock o = .ok o') :
    Refreshed reserves clock o o' := by
  simp only [refreshObligation, bind_eq_ok, pure_eq_ok] at h
  obtain ⟨o₁, ho₁, o₂, ho₂, rfl⟩ := h
  have hb : BorrowsValued reserves o o₁ o.borrowsCount.toNat :=
    foldlM_range_invariant (P := fun m t => BorrowsValued reserves o t m)
      ⟨rfl, fun i hi => absurd hi (Nat.not_lt_zero _), fun _ _ => rfl⟩
      (fun m s s' _ hs hstep => hs.step hstep) ho₁
  have hd : DepositsValued reserves o₁ o₂ o₁.depositsCount.toNat :=
    foldlM_range_invariant (P := fun m t => DepositsValued reserves o₁ t m)
      ⟨rfl, fun i hi => absurd hi (Nat.not_lt_zero _), fun _ _ => rfl⟩
      (fun m s s' _ hs hstep => hs.step hstep) ho₂
  obtain ⟨lm, ow, lu, ds, bs, dc, bc⟩ := o
  obtain ⟨lm₁, ow₁, lu₁, ds₁, bs₁, dc₁, bc₁⟩ := o₁
  obtain ⟨lm₂, ow₂, lu₂, ds₂, bs₂, dc₂, bc₂⟩ := o₂
  have hrest := hb.rest
  have hrest' := hd.rest
  simp only [Obligation.mk.injEq] at hrest hrest'
  obtain ⟨rfl, rfl, rfl, rfl, -, rfl, rfl⟩ := hrest
  obtain ⟨rfl, rfl, rfl, -, rfl, rfl, rfl⟩ := hrest'
  exact ⟨⟨rfl, rfl⟩, rfl, rfl, rfl, fun i => ⟨hb.done i, hb.todo i⟩,
    fun i => ⟨hd.done i, hd.todo i⟩⟩

/-- A refresh indexes the array at every counted borrow, so it fails on a count beyond it. -/
theorem borrowsCount_le_of_refresh {clock : Clock}
    (h : refreshObligation reserves accounts clock o = .ok o') :
    o'.borrowsCount.toNat ≤ maxBorrowCountInReserve := by
  rw [(refreshed h).borrowsCount]
  simp only [refreshObligation, bind_eq_ok, pure_eq_ok] at h
  obtain ⟨o₁, ho₁, -⟩ := h
  apply foldlM_range_invariant (P := fun m _ => m ≤ maxBorrowCountInReserve) (Nat.zero_le _) ?_ ho₁
  intro m s s' _ _ hstep
  unfold priceBorrow at hstep
  split at hstep
  case isTrue hm => exact hm
  case isFalse => cases hstep

end Ledger

end VeilVault
