/-
# VeilVault.Ledger.LoanToValue — two percentages, one gate.

A reserve's configuration carries two percentages of collateral value, and `validate` keeps the
loan-to-value below the liquidation threshold.  `refresh_obligation` caches every deposit at its
threshold, and `borrow` compares debts with the cached sums: the loan-to-value is read by no
instruction.  A fresh borrow is held to the threshold, and meets the loan-to-value when its amount
happens to.
-/
import VeilVault.Ledger.Decimals
import VeilVault.Ledger.SlotGate

namespace VeilVault

open Kit

namespace Ledger

variable {market : LendingMarket} {reserves : Pubkey → Option Reserve} {accounts : List Pubkey}
  {clock : Clock} {key : Pubkey} {o o' : Obligation} {r r₁ r' : Reserve}
  {a : U64}

/-! ## Limits -/

/-- A percentage of what a deposit's underlying is worth, in hundredths. -/
def percentOf (pct : ReserveConfig → U8) (reserves : Pubkey → Option Reserve)
    (c : ObligationCollateral) : ℕ :=
  if c.isActive then
    match reserves c.depositReserve with
    | some r => r.quote.underlying c.depositedAmount.toNat * r.quote.price * (pct r.config).toNat
    | none => 0
  else 0

/-- The same of all deposits: each at its own reserve's percentage. -/
def limitAt (pct : ReserveConfig → U8) (reserves : Pubkey → Option Reserve) (o : Obligation) : ℕ :=
  ∑ i : Fin maxDepositsCountInReserve, percentOf pct reserves o.deposits[i]

/-- Limits read the deposits alone. -/
theorem limitAt_congr {pct : ReserveConfig → U8} (h : o'.deposits = o.deposits) :
    limitAt pct reserves o' = limitAt pct reserves o := by
  unfold limitAt
  rw [h]

/-- What a borrow writes into a reserve, no limit reads. -/
theorem limitAt_store {pct : ReserveConfig → U8} (h : r₁.KeepsTerms r') :
    limitAt pct (store reserves key r') o = limitAt pct (store reserves key r₁) o := by
  refine Finset.sum_congr rfl fun i _ => ?_
  unfold percentOf store
  by_cases hk : o.deposits[i].depositReserve = key
  · simp only [hk, ↓reduceIte, h.quote, h.config]
  · simp only [hk, ↓reduceIte]

/-- What the recorded debts are worth at the prices of `reserves`. -/
def owed (reserves : Pubkey → Option Reserve) (o : Obligation) : ℕ :=
  ∑ i : Fin maxBorrowCountInReserve, slotDebt reserves o.borrows[i]

/-- Nor does a debt value. -/
theorem owed_store (h : r₁.KeepsTerms r') :
    owed (store reserves key r') o = owed (store reserves key r₁) o := by
  refine Finset.sum_congr rfl fun i _ => ?_
  unfold slotDebt store
  by_cases hk : o.borrows[i].borrowReserve = key
  · simp only [hk, ↓reduceIte, Option.elim_some, h.quote]
  · simp only [hk, ↓reduceIte]

/-- Every configuration passes `validate`. -/
def Validated (reserves : Pubkey → Option Reserve) : Prop :=
  ∀ k r, reserves k = some r → r.config.validate = .ok ()

theorem Validated.store (h : Validated reserves) (hr : reserves key = some r)
    (hconfig : r'.config = r.config) : Validated (store reserves key r') := by
  intro k q hq
  unfold VeilVault.store at hq
  split at hq
  case isTrue =>
    cases hq
    exact hconfig ▸ h key r hr
  case isFalse => exact h k q hq

/-- `validate` keeps the one percentage below the other, in every slot that counts. -/
theorem percentOf_le (h : Validated reserves) (c : ObligationCollateral) :
    percentOf (·.loanToValuePct) reserves c ≤ percentOf (·.liquidationThresholdPct) reserves c ∧
      (0 < percentOf (·.loanToValuePct) reserves c →
        percentOf (·.loanToValuePct) reserves c <
          percentOf (·.liquidationThresholdPct) reserves c) := by
  unfold percentOf
  split
  case isFalse => exact ⟨le_refl _, fun hpos => absurd hpos (Nat.lt_irrefl 0)⟩
  case isTrue =>
    split
    case h_2 => exact ⟨le_refl _, fun hpos => absurd hpos (Nat.lt_irrefl 0)⟩
    case h_1 q hq =>
      have hordered := h _ q hq
      simp only [ReserveConfig.validate, bind_eq_ok, require_eq_ok, exists_const] at hordered
      have hlt := BitVec.lt_def.mp hordered.1
      refine ⟨Nat.mul_le_mul_left _ (Nat.le_of_lt hlt), fun hpos => ?_⟩
      exact Nat.mul_lt_mul_of_pos_left hlt (Nat.pos_of_mul_pos_right hpos)

/-- On validated configurations a position at the loan-to-value limit is off the threshold, unless
both are zero. -/
theorem limitAt_lt (h : Validated reserves)
    (hpos : 0 < limitAt (·.loanToValuePct) reserves o) :
    limitAt (·.loanToValuePct) reserves o < limitAt (·.liquidationThresholdPct) reserves o := by
  obtain ⟨i, hi, hterm⟩ := Finset.sum_pos_iff.mp hpos
  exact Finset.sum_lt_sum (fun j _ => (percentOf_le h o.deposits[j]).1)
    ⟨i, hi, (percentOf_le h o.deposits[i]).2 hterm⟩

/-- The debts are within the loan-to-value limit of the deposits, and off the boundary at which a
liquidation may begin. -/
structure WithinLoanToValue (reserves : Pubkey → Option Reserve) (o : Obligation) : Prop where
  limit : 100 * owed reserves o ≤ limitAt (·.loanToValuePct) reserves o
  boundary : 100 * owed reserves o < limitAt (·.liquidationThresholdPct) reserves o

instance : Decidable (WithinLoanToValue reserves o) :=
  decidable_of_iff (100 * owed reserves o ≤ limitAt (·.loanToValuePct) reserves o ∧
      100 * owed reserves o < limitAt (·.liquidationThresholdPct) reserves o)
    ⟨fun h => ⟨h.1, h.2⟩, fun h => ⟨h.limit, h.boundary⟩⟩

/-! ## What a borrow moves -/

/-- A borrow from a reserve on validated configurations. -/
structure ValidBorrow (market : LendingMarket) (reserves : Pubkey → Option Reserve) (clock : Clock)
    (key : Pubkey) (r : Reserve) (o : Obligation) (a : U64) (r' : Reserve) (o' : Obligation) :
    Prop where
  validated : Validated reserves
  isReserve : key ≠ default
  reserve : reserves key = some r
  borrowed : borrow market clock key r o a = .ok (r', o')

/-- The same, of an obligation refreshed in the same slot. -/
structure FreshBorrow (market : LendingMarket) (reserves : Pubkey → Option Reserve)
    (accounts : List Pubkey) (clock : Clock) (key : Pubkey) (r : Reserve) (o : Obligation) (a : U64)
    (r' : Reserve) (o' : Obligation) : Prop extends
    ValidBorrow market reserves clock key r o a r' o' where
  refresh : ∃ o₀, refreshObligation reserves accounts clock o₀ = .ok o

/-- After a borrow the position is within the loan-to-value limit and off the boundary exactly when
its debts, accrued to the slot, were within the limit and the amount at the reserve's price fits
into what they left of it. -/
theorem borrow_loanToValue_iff (h : ValidBorrow market reserves clock key r o a r' o') :
    ∃ r₁ o₁, r.accrueInterest clock.slot = .ok r₁ ∧
      o.accrueExisting key r₁.liquidity.cumulativeBorrowRateSf = .ok o₁ ∧
      (WithinLoanToValue (store reserves key r') o' ↔
        100 * owed (store reserves key r₁) o₁ ≤
            limitAt (·.loanToValuePct) (store reserves key r₁) o ∧
          a.toNat ≤ (limitAt (·.loanToValuePct) (store reserves key r₁) o / 100 -
            owed (store reserves key r₁) o₁) / r.liquidity.marketPriceSf.toNat) := by
  obtain ⟨hapos, hprice⟩ := pos_of_borrow h.borrowed
  obtain ⟨r₁, o₁, hacc, hbor, ho₁, ho'⟩ := (borrow_ok h.borrowed).steps
  have hkeep := Reserve.keepsTerms_of_borrow hbor
  have hquoted : r'.quote.price = r.liquidity.marketPriceSf.toNat :=
    congrArg BitVec.toNat (hkeep.price.trans (Reserve.accrues_of_ok hacc).price)
  refine ⟨r₁, o₁, hacc, hkeep.rate ▸ ho₁, ?_⟩
  -- the debts move by the loan, the limits not at all
  have hdebts : owed (store reserves key r') o' = owed (store reserves key r₁) o₁ +
      a.toNat * r.liquidity.marketPriceSf.toNat := by
    rw [← owed_store hkeep, ← hquoted]
    exact (sums_borrow h.isReserve ho').1
  have hdeposits : o'.deposits = o.deposits :=
    (Obligation.frame_borrow h.isReserve ho').2.trans (frame_accrueExisting ho₁).2
  have hlimit : ∀ pct : ReserveConfig → U8, limitAt pct (store reserves key r') o' =
      limitAt pct (store reserves key r₁) o := fun _ =>
    (limitAt_congr hdeposits).trans (limitAt_store hkeep)
  have hvalid : Validated (store reserves key r') :=
    h.validated.store h.reserve (hkeep.config.trans (Reserve.accrues_of_ok hacc).config)
  have hloan : 0 < a.toNat * r.liquidity.marketPriceSf.toNat := Nat.mul_pos hapos hprice
  rw [Nat.le_div_iff_mul_le hprice, ← hlimit]
  constructor
  case mp =>
    intro hwithin
    have hle := hwithin.limit
    rw [hdebts] at hle
    omega
  case mpr =>
    rintro ⟨hle, hfits⟩
    have hbelow : 100 * owed (store reserves key r') o' ≤
        limitAt (·.loanToValuePct) (store reserves key r') o' := by
      rw [hdebts]
      omega
    -- a debt within a limit makes the limit positive, where the two percentages differ
    exact ⟨hbelow, Nat.lt_of_le_of_lt hbelow (limitAt_lt hvalid (by omega))⟩

theorem validated_twoMints : Validated twoMints := by
  intro k q h
  have hconfig : (dollarReserve default).config.validate = .ok () := by decide
  unfold twoMints at h
  split at h
  · cases h
    exact hconfig
  · split at h
    · cases h
      exact hconfig
    · cases h

/-- Every loan that `borrow` grants on 1000 dollars of collateral is a `FreshBorrow`. -/
theorem freshBorrow_valued (h : borrow (.init (.key 1) 0) ⟨9, 900⟩ (.key 3)
    (dollarReserve (.key 13)) valuedObligation a = .ok (r', o')) :
    FreshBorrow (.init (.key 1) 0) twoMints [.key 4] ⟨9, 900⟩ (.key 3) (dollarReserve (.key 13))
      valuedObligation a r' o' where
  refresh := ⟨unvaluedObligation, refreshObligation_unvalued⟩
  validated := validated_twoMints
  isReserve := by decide
  reserve := rfl
  borrowed := h

/-- The first reserve with half of its dollars lent out. -/
def lentDollars : Reserve :=
  { dollarReserve (.key 13) with
    liquidity := { (dollarReserve (.key 13)).liquidity with
      availableAmount := 500, borrowedAmountSf := 500 } }

def lentMints (k : Pubkey) : Option Reserve :=
  if k = .key 3 then some lentDollars else twoMints k

/-- The collateral with those 500 dollars owed, valued a year after the reserve last accrued. -/
def debtorObligation : Obligation :=
  { valuedObligation.setBorrow 0
      { borrowReserve := .key 3, borrowedAmountSf := 500 * rateScale,
        cumulativeBorrowRateSf := rateScale, marketValueSf := 500 * rateScale } with
    borrowsCount := 1
    lastUpdate := ⟨63072009, 900⟩ }

/-- With a year's interest on the old debt, a loan of 200 dollars stays below the limit of 750. -/
theorem borrow_loanToValue_iff_owing : ∃ r' o',
    borrow (.init (.key 1) 0) ⟨63072009, 900⟩ (.key 3) lentDollars debtorObligation 200 =
      .ok (r', o') ∧ WithinLoanToValue (store lentMints (.key 3) r') o' := by
  have hrun : (borrow (.init (.key 1) 0) ⟨63072009, 900⟩ (.key 3) lentDollars
      debtorObligation 200).toOption.any (fun _ => true) = true := by decide +kernel
  obtain ⟨⟨r', o'⟩, hborrow, -⟩ := toOption_any.mp hrun
  have hvalid : Validated lentMints := by
    intro k q h
    unfold lentMints at h
    split at h
    case isTrue =>
      cases h
      decide
    case isFalse => exact validated_twoMints k q h
  obtain ⟨r₁, o₁, hacc, ho₁, hiff⟩ :=
    borrow_loanToValue_iff ⟨hvalid, by decide, rfl, hborrow⟩
  have hcondition : (do
      let r₁ ← lentDollars.accrueInterest 63072009
      let o₁ ← debtorObligation.accrueExisting (.key 3) r₁.liquidity.cumulativeBorrowRateSf
      return (r₁, o₁) : Result (Reserve × Obligation)).toOption.any (fun p : Reserve × Obligation =>
        100 * owed (store lentMints (.key 3) p.1) p.2 ≤
            limitAt (·.loanToValuePct) (store lentMints (.key 3) p.1) debtorObligation ∧
          200 ≤ (limitAt (·.loanToValuePct) (store lentMints (.key 3) p.1) debtorObligation / 100 -
            owed (store lentMints (.key 3) p.1) p.2) /
              lentDollars.liquidity.marketPriceSf.toNat) = true := by decide +kernel
  have hacc' : lentDollars.accrueInterest 63072009 = .ok r₁ := hacc
  rw [hacc', ok_bind, ho₁, ok_bind] at hcondition
  exact ⟨r', o', hborrow, hiff.mpr (of_decide_eq_true hcondition)⟩

/-- A loan of 1000 dollars is granted on 1000 dollars of collateral. -/
theorem not_forall_borrow_loanToValue :
    ¬ ∀ (market : LendingMarket) (reserves : Pubkey → Option Reserve) (accounts : List Pubkey)
      (clock : Clock) (key : Pubkey) (r : Reserve) (o : Obligation) (a : U64) (r' : Reserve)
      (o' : Obligation), FreshBorrow market reserves accounts clock key r o a r' o' →
      WithinLoanToValue (store reserves key r') o' := by
  intro hall
  have hrun : (borrow (.init (.key 1) 0) ⟨9, 900⟩ (.key 3) (dollarReserve (.key 13))
      valuedObligation 1000).toOption.any (fun p =>
        ¬ WithinLoanToValue (store twoMints (.key 3) p.1) p.2) = true := by decide +kernel
  obtain ⟨⟨r', o'⟩, hborrow, habove⟩ := toOption_any.mp hrun
  exact of_decide_eq_true habove (hall _ _ _ _ _ _ _ _ _ _ (freshBorrow_valued hborrow))

end Ledger

end VeilVault
