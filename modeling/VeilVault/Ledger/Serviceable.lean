/-
# VeilVault.Ledger.Serviceable — when a recorded debt can still be accrued.

A debt is stored with twelve digits, and an accrual multiplies it by an index with twelve more
before it divides by the old index.  The product overflows long before the accrued debt does, and
since every instruction that touches a borrow slot accrues it first, an overflow there is final:
nobody can repay, liquidate, refresh or enlarge the debt again, at this index or a later one.

`Accruable` is the condition the code needs, `Stuck` what happens without it: a debt that still fits
can be serviced exactly up to the bound on that product, and the debt in it is the whole slot's,
whatever part of it the last borrow added.
-/
import VeilVault.Ledger.BorrowParity
import VeilVault.Ledger.Effects

namespace VeilVault

open Kit Kit.Outcome

namespace Obligation

variable {o o' : Obligation} {k : Pubkey} {i : Fin maxBorrowCountInReserve} {c : U128}

/-- `accrue_interest` returns `Ok` on the slot. -/
def Accruable (o : Obligation) (i : Fin maxBorrowCountInReserve) (c : U128) : Prop :=
  ∃ o', (o.accrueInterest i c).commit = .ok o'

/-- What accrual asks of the slot, and of nothing else in the obligation. -/
theorem accruable_iff_slot : o.Accruable i c ↔
    ¬ borrowLayout.Live o.borrows[i] ∨ c = o.borrows[i].cumulativeBorrowRateSf ∨
      (o.borrows[i].cumulativeBorrowRateSf.toNat < c.toNat ∧
        0 < o.borrows[i].cumulativeBorrowRateSf.toNat ∧
        o.borrows[i].borrowedAmountSf.toNat * c.toNat < 2 ^ 128) := by
  have hspec := accrueInterest_spec o i c
  unfold Accruable
  generalize hout : o.accrueInterest i c = out at hspec ⊢
  cases hspec with
  | inactive hn => exact iff_of_true ⟨o, rfl⟩ (.inl hn)
  | same _ heq => exact iff_of_true ⟨o, rfl⟩ (.inr (.inl heq))
  | grown _ hlt hfit hpos d _ => exact iff_of_true ⟨_, rfl⟩ (.inr (.inr ⟨hlt, hpos, hfit⟩))
  | decreased hi hlt =>
      apply iff_of_false
      · rintro ⟨o', h⟩
        cases h
      · rintro (hn | heq | ⟨hgt, -⟩)
        · exact hn hi
        · exact absurd (congrArg BitVec.toNat heq) (Nat.ne_of_lt hlt)
        · exact absurd hgt (Nat.lt_asymm hlt)
  | overflow hi hlt hbig =>
      apply iff_of_false
      · rintro ⟨o', h⟩
        cases h
      · rintro (hn | heq | ⟨-, hpos, hfit⟩)
        · exact hn hi
        · exact absurd (congrArg BitVec.toNat heq) (Nat.ne_of_gt hlt)
        · omega

/-- A live slot at an index that is not ahead accrues exactly when nothing is due, or the product
of its debt and the new index fits. -/
theorem accruable_iff (hi : borrowLayout.Live o.borrows[i])
    (hpos : 0 < o.borrows[i].cumulativeBorrowRateSf.toNat)
    (hle : o.borrows[i].cumulativeBorrowRateSf.toNat ≤ c.toNat) : o.Accruable i c ↔
      c = o.borrows[i].cumulativeBorrowRateSf ∨
        o.borrows[i].borrowedAmountSf.toNat * c.toNat < 2 ^ 128 := by
  rw [accruable_iff_slot]
  constructor
  · rintro (hn | heq | ⟨-, -, hfit⟩)
    · exact absurd hi hn
    · exact .inl heq
    · exact .inr hfit
  · rintro (heq | hfit)
    · exact .inr (.inl heq)
    · rcases Nat.lt_or_eq_of_le hle with hlt | heq
      · exact .inr (.inr ⟨hlt, hpos, hfit⟩)
      · exact .inr (.inl (BitVec.eq_of_toNat_eq heq.symm))

end Obligation

namespace Ledger

variable {clock : Clock} {key : Pubkey} {o : Obligation} {i : Fin maxBorrowCountInReserve}
  {c : U128}

/-! ## What an accrual that fails takes with it -/

/-- No instruction gets past the accrual of `key`'s slot while that reserve stands at the index
`c`; for a refresh, the slot has to be among those it walks and the reserve priced. -/
structure Stuck (o : Obligation) (key : Pubkey) (i : Fin maxBorrowCountInReserve) (c : U128) :
    Prop where
  repay : ∀ (clock : Clock) (r r₁ : Reserve) (a : U64) res,
    r.accrueInterest clock.slot = .ok r₁ → r₁.liquidity.cumulativeBorrowRateSf = c →
    Ledger.repay clock key r o a ≠ .ok res
  borrow : ∀ (market : LendingMarket) (clock : Clock) (r r₁ : Reserve) (a : U64) res,
    r.accrueInterest clock.slot = .ok r₁ → r₁.liquidity.cumulativeBorrowRateSf = c →
    Ledger.borrow market clock key r o a ≠ .ok res
  seize : ∀ gate (clock : Clock) (withdrawKey : Pubkey) (reserves : Pubkey → Option Reserve)
    (r r₁ : Reserve) (a : U64) res, reserves key = some r →
    r.accrueInterest clock.slot = .ok r₁ → r₁.liquidity.cumulativeBorrowRateSf = c →
    Ledger.seize gate clock key withdrawKey reserves o a ≠ .ok res
  refresh : ∀ (reserves : Pubkey → Option Reserve) accounts (clock : Clock) (r : Reserve) res,
    reserves key = some r → r.liquidity.cumulativeBorrowRateSf = c →
    r.liquidity.marketPriceSf ≠ 0 → i.val < o.borrowsCount.toNat →
    refreshObligation reserves accounts clock o ≠ .ok res

/-- The walk of a refresh cannot pass the slot. -/
theorem refreshObligation_stuck {reserves : Pubkey → Option Reserve} {accounts : List Pubkey}
    {r : Reserve} {o' : Obligation} (hi : borrowLayout.Live o.borrows[i])
    (hno : ¬ o.Accruable i r.liquidity.cumulativeBorrowRateSf)
    (hr : reserves o.borrows[i].borrowReserve = some r)
    (hprice : r.liquidity.marketPriceSf ≠ 0) (hcount : i.val < o.borrowsCount.toNat) :
    refreshObligation reserves accounts clock o ≠ .ok o' := by
  intro h
  simp only [refreshObligation, bind_eq_ok] at h
  obtain ⟨o₁, ho₁, -⟩ := h
  -- up to its turn the slot is as it was, and its turn does not end well
  let Waiting : ℕ → Obligation → Prop := fun m t => BorrowLoop reserves o t m ∧ m ≤ i.val
  have hloop : Waiting o.borrowsCount.toNat o₁ := by
    apply foldlM_range_invariant (P := Waiting) ⟨⟨.refl o, rfl, fun _ => .refl _ _,
      fun _ _ => rfl⟩, Nat.zero_le _⟩ _ ho₁
    intro m s s' _ hs hstep
    refine ⟨hs.1.step hstep, Nat.lt_of_le_of_ne hs.2 fun hmi => ?_⟩
    subst hmi
    rw [priceBorrow, dif_pos i.isLt] at hstep
    have hsame : s.borrows[i] = o.borrows[i] := hs.1.todo i (le_refl _)
    rcases priceBorrowSlot_ok hstep with ⟨-, hskip⟩ | ⟨q, s₁, mv, -, hq, -, hacc, -⟩
    · obtain ⟨q, hq, hzero⟩ := hskip (hsame ▸ hi)
      rw [hsame, hr] at hq
      cases hq
      exact hprice hzero
    · rw [hsame, hr] at hq
      cases hq
      have hdone : s.Accruable i r.liquidity.cumulativeBorrowRateSf := ⟨s₁, hacc⟩
      rw [Obligation.accruable_iff_slot, hsame, ← Obligation.accruable_iff_slot] at hdone
      exact hno hdone
  exact absurd hloop.2 (Nat.not_le.mpr hcount)

theorem stuck_of_not_accruable (hk : key ≠ default) (hf : o.findBorrow key = .ok i)
    (hno : ¬ o.Accruable i c) : Stuck o key i c where
  repay := by
    rintro clock r r₁ a ⟨r', o'⟩ hacc hc h
    obtain ⟨r₂, j, o₁, hacc', -, hj, ho₁, -⟩ := repay_ok h
    obtain rfl : r₁ = r₂ := Except.ok.inj (hacc.symm.trans hacc')
    obtain rfl : i = j := Except.ok.inj (hf.symm.trans hj)
    exact hno ⟨o₁, hc ▸ ho₁⟩
  borrow := by
    rintro market clock r r₁ a ⟨r', o'⟩ hacc hc h
    obtain ⟨r₂, o₁, hacc', hb, ho₁, -⟩ := (borrow_ok h).steps
    obtain rfl : r₁ = r₂ := Except.ok.inj (hacc.symm.trans hacc')
    rw [(Reserve.keepsTerms_of_borrow hb).rate, hc, Obligation.accrueExisting, hf] at ho₁
    exact hno ⟨o₁, ho₁⟩
  seize := by
    intro gate clock withdrawKey reserves r r₁ a s hr hacc hc h
    obtain ⟨r', r₂, -, -, j, o₁, -, -, -, hr', hacc', -, -, hj, ho₁, -⟩ := seize_ok h
    obtain rfl : r = r' := Option.some.inj (hr.symm.trans hr')
    obtain rfl : r₁ = r₂ := Except.ok.inj (hacc.symm.trans hacc')
    obtain rfl : i = j := Except.ok.inj (hf.symm.trans hj)
    exact hno ⟨o₁, hc ▸ ho₁⟩
  refresh := by
    intro reserves accounts clock r o' hr hc hprice hcount
    have hkey := (Obligation.findBorrow_eq_ok.mp hf).1
    exact refreshObligation_stuck (Obligation.borrow_live hk hkey) (hc.symm ▸ hno)
      (hkey.symm ▸ hr) hprice hcount

/-! ## The debts a borrow records -/

/-- A borrow of `a` units, into a new slot or on top of an old debt, records a debt at the reserve's
index: at every later index, the accrual succeeds exactly when nothing is due or the product in
front of the division is in range, and otherwise no instruction can touch the debt. -/
theorem accruable_iff_of_borrow (market : LendingMarket) (clock : Clock) (key : Pubkey)
    (r r' : Reserve) (o o' : Obligation) (a : U64) (hk : key ≠ default)
    (h : borrow market clock key r o a = .ok (r', o'))
    (hscale : 10 ^ 12 ≤ r'.liquidity.cumulativeBorrowRateSf.toNat) :
    ∃ i, o'.findBorrow key = .ok i ∧ ∀ c : U128,
      r'.liquidity.cumulativeBorrowRateSf.toNat ≤ c.toNat →
      (o'.Accruable i c ↔ c = r'.liquidity.cumulativeBorrowRateSf ∨
        (o.accruedDebt key r'.liquidity.cumulativeBorrowRateSf + a.toNat * 10 ^ 12) * c.toNat <
          2 ^ 128) ∧
      (¬ o'.Accruable i c → Stuck o' key i c) := by
  have hpos := Nat.lt_of_lt_of_le (by decide : 0 < 10 ^ 12) hscale
  obtain ⟨i, hf, hrate, hdebt⟩ := (borrow_ok h).slot hk hpos
  refine ⟨i, hf, fun c hle => ⟨?_, stuck_of_not_accruable hk hf⟩⟩
  have hlive := Obligation.borrow_live hk (Obligation.findBorrow_eq_ok.mp hf).1
  rw [← hdebt, ← hrate]
  apply Obligation.accruable_iff hlive
  · rw [hrate]
    exact hpos
  · rw [hrate]
    exact hle

/-! ## Forty units more, and four hundred trillion -/

/-- Thirty units of debt at the index one, on 100 cTokens. -/
def indebtedObligation : Obligation :=
  { pledgedObligation.setBorrow 0
      { borrowReserve := .key 3, borrowedAmountSf := 30 * rateScale
        cumulativeBorrowRateSf := rateScale, marketValueSf := 30 * rateScale } with
    borrowsCount := 1 }

theorem accruable_iff_of_borrow_small : ∃ o' : Obligation, ∃ i, o'.findBorrow (.key 3) = .ok i ∧
    o'.Accruable i (2 * rateScale) := by
  have hrun : (borrow (.init (.key 1) 0) ⟨9, 900⟩ (.key 3) (liquidReserve (.key 11) rateScale)
      indebtedObligation 40).toOption.any
        (·.1.liquidity.cumulativeBorrowRateSf = rateScale) = true := by decide +kernel
  obtain ⟨⟨r', o'⟩, h, hindex⟩ := toOption_any.mp hrun
  have hindex : r'.liquidity.cumulativeBorrowRateSf = rateScale := of_decide_eq_true hindex
  obtain ⟨i, hf, hserve⟩ := accruable_iff_of_borrow _ _ (.key 3) _ r' _ o' 40 (by decide) h
    (by rw [hindex]; decide)
  have hdue := (hserve (2 * rateScale) (by rw [hindex]; decide)).1
  rw [hindex] at hdue
  exact ⟨o', i, hf, hdue.mpr (.inr (by decide +kernel))⟩

/-- A reserve deep enough to lend 400,000,000,000,000 atomic units. -/
def deepReserve : Reserve :=
  { liquidReserve (.key 11) rateScale with
    liquidity := { (liquidReserve (.key 11) rateScale).liquidity with
      availableAmount := 1000000000000000 }
    config := { (liquidReserve (.key 11) rateScale).config with borrowLimit := 1000000000000000 } }

/-- An obligation with collateral for all of it. -/
def deepObligation : Obligation :=
  { pledgedObligation.setDeposit 0
      { depositReserve := .key 4, depositedAmount := 1000000000000000
        marketValueSf := 700000000000000 * rateScale } with
    depositsCount := 1 }

/-- The borrow is accepted; one step of the index later the accrued debt fits in 89 bits, and the
accrual fails. -/
theorem not_forall_accruable :
    ¬ ∀ (market : LendingMarket) (clock : Clock) (key : Pubkey) (r r' : Reserve)
        (o o' : Obligation) (a : U64) (i : Fin maxBorrowCountInReserve) (c : U128),
        key ≠ default → borrow market clock key r o a = .ok (r', o') →
        10 ^ 12 ≤ r'.liquidity.cumulativeBorrowRateSf.toNat → o'.findBorrow key = .ok i →
        r'.liquidity.cumulativeBorrowRateSf.toNat ≤ c.toNat →
        a.toNat * 10 ^ 12 * c.toNat / r'.liquidity.cumulativeBorrowRateSf.toNat < 2 ^ 128 →
        o'.Accruable i c := by
  intro hall
  have hrun : (borrow (.init (.key 1) 0) ⟨9, 900⟩ (.key 3) deepReserve deepObligation
      400000000000000).toOption.any (fun res =>
        res.1.liquidity.cumulativeBorrowRateSf = rateScale ∧ res.2.findBorrow (.key 3) = .ok 0 ∧
          (res.2.accrueInterest 0 (rateScale + 1)).1 = .error (.lending .mathOverflow)) = true := by
    decide +kernel
  cases h : borrow (.init (.key 1) 0) ⟨9, 900⟩ (.key 3) deepReserve deepObligation
      400000000000000 with
  | error e =>
      rw [h] at hrun
      cases hrun
  | ok res =>
      obtain ⟨r', o'⟩ := res
      rw [h] at hrun
      obtain ⟨hindex, hf, hfail⟩ := of_decide_eq_true hrun
      obtain ⟨o'', hacc⟩ := hall _ _ (.key 3) _ r' _ o' 400000000000000 0 (rateScale + 1)
        (by decide) h (by rw [hindex]; decide) hf (by rw [hindex]; decide)
        (by rw [hindex]; decide)
      have hstop : (o'.accrueInterest 0 (rateScale + 1)).1 = .ok () := by
        rw [show ((0 : ℕ)) = ((0 : Fin maxBorrowCountInReserve) : ℕ) from rfl,
          commit_eq_ok.mp hacc]
      rw [hstop] at hfail
      cases hfail

end Ledger

end VeilVault
