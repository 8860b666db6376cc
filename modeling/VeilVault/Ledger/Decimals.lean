/-
# VeilVault.Ledger.Decimals — whole-token prices on atomic amounts.

A market price is USD per whole token, but `refresh_obligation`, `borrow` and `liquidate` multiply
it with atomic amounts; the mints' decimals are read for the token transfers only.  The factor
`10 ^ decimals` cancels in every comparison exactly when it is the same on both sides.  Here the
decimals of the mints are a parameter, USD amounts are rational, and the two decisions the claim of
`market_value_sf` rests on, the health check of a borrow and the size of a seizure, are compared
with them.
-/
import Mathlib.Algebra.BigOperators.Field
import Mathlib.Tactic.Linarith
import VeilVault.Kit.IndexedDebt
import VeilVault.Ledger.Valuation
import VeilVault.Obligation.Health
import VeilVault.Obligation.Prefix

namespace VeilVault

open Kit Kit.Outcome

/-! ## USD -/

section Usd

variable (decimals : Pubkey → U8) (reserves : Pubkey → Option Reserve)

/-- One whole token of the reserve's mint, in atomic units. -/
def Reserve.wholeToken (r : Reserve) : ℚ := 10 ^ (decimals r.liquidity.mint).toNat

/-- The value of an atomic amount at the reserve's price, in USD times `rateScale`. -/
def Reserve.usd (r : Reserve) (atomic : ℚ) : ℚ :=
  atomic / r.wholeToken decimals * r.quote.price

/-- The value of a deposit at its reserve's liquidation threshold. -/
def depositUsd (c : ObligationCollateral) : ℚ :=
  if c.isActive then (reserves c.depositReserve).elim 0 fun r =>
    r.usd decimals (r.quote.underlying c.depositedAmount.toNat) * (r.quote.thresholdPct / 100)
  else 0

/-- The value of one underlying atomic unit of it, rounded up like the cached values. -/
def depositUnitUsd (c : ObligationCollateral) : ℚ :=
  if c.isActive then (reserves c.depositReserve).elim 0 fun r =>
    r.quote.unitValue / r.wholeToken decimals
  else 0

/-- The value of a debt. -/
def borrowUsd (b : ObligationLiquidity) : ℚ :=
  if b.isActive then (reserves b.borrowReserve).elim 0 fun r =>
    r.usd decimals (b.borrowedAmountSf.toNat / 10 ^ 12)
  else 0

/-- The value of one atomic unit of it. -/
def borrowUnitUsd (b : ObligationLiquidity) : ℚ :=
  if b.isActive then (reserves b.borrowReserve).elim 0 fun r => r.usd decimals 1
  else 0

namespace Obligation

variable (o : Obligation)

def depositsUsd : ℚ :=
  ∑ i : Fin maxDepositsCountInReserve, depositUsd decimals reserves o.deposits[i]

def borrowsUsd : ℚ :=
  ∑ i : Fin maxBorrowCountInReserve, borrowUsd decimals reserves o.borrows[i]

/-- One atomic unit for each slot. -/
def unitsUsd : ℚ :=
  ∑ i : Fin maxDepositsCountInReserve, depositUnitUsd decimals reserves o.deposits[i] +
    ∑ i : Fin maxBorrowCountInReserve, borrowUnitUsd decimals reserves o.borrows[i]

end Obligation

end Usd

/-! ## The two decisions -/

namespace Ledger

/-- An obligation just refreshed, with its active slots counted and at positive prices, all of whose
mints have decimals in `ds`. -/
structure Fresh (decimals : Pubkey → U8) (ds : Set U8) (reserves : Pubkey → Option Reserve)
    (accounts : List Pubkey) (clock : Clock) (o : Obligation) : Prop where
  refreshed : ∃ o₀, refreshObligation reserves accounts clock o₀ = .ok o
  packed : o.PackedTables
  deposits : ∀ i : Fin maxDepositsCountInReserve, depositLayout.Live o.deposits[i] →
    ∃ r, reserves o.deposits[i].depositReserve = some r ∧ r.liquidity.marketPriceSf ≠ 0 ∧
      decimals r.liquidity.mint ∈ ds
  borrows : ∀ i : Fin maxBorrowCountInReserve, borrowLayout.Live o.borrows[i] →
    ∃ r, reserves o.borrows[i].borrowReserve = some r ∧ r.liquidity.marketPriceSf ≠ 0 ∧
      decimals r.liquidity.mint ∈ ds

/-- The steps of a borrow up to its health check. -/
def BorrowSteps (clock : Clock) (key : Pubkey) (r : Reserve) (o : Obligation) (a : U64)
    (r' : Reserve) (o' : Obligation) : Prop :=
  ∃ r₁ o₁, r.accrueInterest clock.slot = .ok r₁ ∧ r₁.borrow a = .ok r' ∧
    o.accrueExisting key r'.liquidity.cumulativeBorrowRateSf = .ok o₁ ∧
    (o₁.borrow key a.toU128 r'.liquidity.cumulativeBorrowRateSf).commit = .ok o'

/-- `borrow`'s health check accepts exactly the loans whose debts in USD, with the new one, are at
most the deposits in USD at their thresholds, up to one atomic unit per slot. -/
def ChecksUsd (decimals : Pubkey → U8) (ds : Set U8) : Prop :=
  ∀ (market : LendingMarket) (reserves : Pubkey → Option Reserve) (accounts : List Pubkey)
    (clock : Clock) (o : Obligation) (key : Pubkey) (r : Reserve) (a : U64) (r' : Reserve)
    (o' : Obligation),
    Fresh decimals ds reserves accounts clock o → key ≠ default → reserves key = some r →
    decimals r.liquidity.mint ∈ ds →
    (borrow market clock key r o a = .ok (r', o') →
      o.borrowsUsd decimals reserves + r.usd decimals a.toNat ≤
        o.depositsUsd decimals reserves + o.unitsUsd decimals reserves) ∧
    (BorrowSteps clock key r o a r' o' →
      o'.inlineHealthCheck a r'.liquidity.marketPriceSf = .error (.lending .unhealthyObligation) →
      o.depositsUsd decimals reserves ≤
        o.borrowsUsd decimals reserves + r.usd decimals a.toNat + o.unitsUsd decimals reserves)

/-- What a repayment and its bonus buy of another mint, in atomic units: their USD value over the
USD price of a whole token. -/
def boughtUsd (decimals : Pubkey → U8) (r q : Reserve) (repaid bonusBps : ℕ) : ℚ :=
  r.usd decimals repaid * (10000 + bonusBps) / 10000 / q.quote.price * q.wholeToken decimals

/-- `liquidate` seizes the cTokens of what the repayment and its bonus buy, rounded down to atomic
units, as far as there are any. -/
def SeizesUsd (decimals : Pubkey → U8) (ds : Set U8) : Prop :=
  ∀ (market : LendingMarket) (clock : Clock) (repayKey withdrawKey : Pubkey)
    (reserves : Pubkey → Option Reserve) (o : Obligation) (a : U64) (s : Seizure)
    (r q q₁ : Reserve) (j : Fin maxDepositsCountInReserve),
    liquidate market clock repayKey withdrawKey reserves o a = .ok s →
    reserves repayKey = some r → reserves withdrawKey = some q →
    decimals r.liquidity.mint ∈ ds → decimals q.liquidity.mint ∈ ds →
    q.accrueInterest clock.slot = .ok q₁ → o.findDeposit withdrawKey = .ok j →
    ∃ n : ℕ,
      (n : ℚ) ≤ boughtUsd decimals r q s.actualRepay.toNat q.config.liquidationBonusPct.toNat ∧
      boughtUsd decimals r q s.actualRepay.toNat q.config.liquidationBonusPct.toNat < n + 1 ∧
      s.ctokensToSeize.toNat =
        min (if q₁.quote.supply = 0 ∨ q₁.quote.total = 0 then n
          else n * q₁.quote.supply / q₁.quote.total) o.deposits[j].depositedAmount.toNat

/-- With mints of these decimals, valuations do not depend on the decimals. -/
def Independent (ds : Set U8) : Prop :=
  ∀ decimals : Pubkey → U8, ChecksUsd decimals ds ∧ SeizesUsd decimals ds

/-! ## Cached values in USD -/

section Cached

variable {decimals : Pubkey → U8} {d : U8} {reserves : Pubkey → Option Reserve}
  {accounts : List Pubkey} {clock : Clock} {o o' : Obligation}

theorem wholeToken_eq {r : Reserve} (h : decimals r.liquidity.mint ∈ ({d} : Set U8)) :
    r.wholeToken decimals = 10 ^ d.toNat := by
  rw [Reserve.wholeToken, Set.mem_singleton_iff.mp h]

/-- The value of an active deposit, as the checks read it. -/
def cachedDeposit (c : ObligationCollateral) : ℕ :=
  if c.isActive then c.marketValueSf.toNat else 0

/-- The value of an active debt, as the checks read it. -/
def cachedBorrow (b : ObligationLiquidity) : ℕ :=
  if b.isActive then b.marketValueSf.toNat else 0

/-- Flooring a value costs less than one atomic unit. -/
theorem le_depositValue_add (q : Quote) (ctokens : ℕ) :
    q.underlying ctokens * q.price * q.thresholdPct ≤
      (q.depositValue ctokens + q.unitValue) * 100 := by
  rw [show q.depositValue ctokens = q.underlying ctokens * q.price * q.thresholdPct / 100 from rfl,
    Quote.unitValue, Nat.mul_assoc]
  rcases Nat.eq_zero_or_pos (q.price * q.thresholdPct) with hz | hpos
  · rw [hz]
    omega
  · generalize q.underlying ctokens * (q.price * q.thresholdPct) = m
    omega

/-- The whole atomic units of a debt are worth at most one unit less than the debt. -/
theorem debt_bounds {x p : ℕ} {t : ℚ} (ht : 0 < t) :
    ((x / 10 ^ 12 * p : ℕ) : ℚ) / t ≤ (x : ℚ) / 10 ^ 12 / t * p ∧
      (x : ℚ) / 10 ^ 12 / t * p ≤ ((x / 10 ^ 12 * p : ℕ) : ℚ) / t + 1 / t * p := by
  have hexact : (x : ℚ) / 10 ^ 12 / t * p = (x : ℚ) / 10 ^ 12 * p / t := by ring
  have hunit : ((x / 10 ^ 12 * p : ℕ) : ℚ) / t + 1 / t * p =
      (((x / 10 ^ 12 : ℕ) : ℚ) + 1) * p / t := by
    push_cast
    ring
  have hpos : (0 : ℚ) < 10 ^ 12 := by positivity
  have hle : ((x / 10 ^ 12 : ℕ) : ℚ) ≤ (x : ℚ) / 10 ^ 12 := by
    rw [le_div_iff₀ hpos]
    exact_mod_cast Nat.div_mul_le_self x (10 ^ 12)
  have hge : (x : ℚ) / 10 ^ 12 ≤ ((x / 10 ^ 12 : ℕ) : ℚ) + 1 := by
    rw [div_le_iff₀ hpos]
    have hfloor : x ≤ (x / 10 ^ 12 + 1) * 10 ^ 12 := by omega
    exact_mod_cast hfloor
  rw [hexact, hunit, Nat.cast_mul]
  constructor
  · gcongr
  · gcongr

/-- The same in whole tokens. -/
theorem usd_bounds {u p th m unit : ℕ} {t : ℚ} (ht : 0 < t) (hle : m * 100 ≤ u * p * th)
    (hge : u * p * th ≤ (m + unit) * 100) :
    (m : ℚ) / t ≤ u / t * p * (th / 100) ∧ (u : ℚ) / t * p * (th / 100) ≤ m / t + unit / t := by
  have hexact : (u : ℚ) / t * p * (th / 100) = ((u * p * th : ℕ) : ℚ) / 100 / t := by
    push_cast
    ring
  have hle' : ((m * 100 : ℕ) : ℚ) ≤ ((u * p * th : ℕ) : ℚ) := Nat.cast_le.mpr hle
  have hge' : ((u * p * th : ℕ) : ℚ) ≤ (((m + unit) * 100 : ℕ) : ℚ) := Nat.cast_le.mpr hge
  rw [hexact, ← add_div, div_le_div_iff_of_pos_right ht, div_le_div_iff_of_pos_right ht]
  push_cast at hle' hge' ⊢
  have hpos : (0 : ℚ) < 100 := by positivity
  exact ⟨(le_div_iff₀ hpos).mpr hle', (div_le_iff₀ hpos).mpr hge'⟩

theorem Fresh.deposit_value (h : Fresh decimals {d} reserves accounts clock o)
    (i : Fin maxDepositsCountInReserve) :
    (cachedDeposit o.deposits[i] : ℚ) / 10 ^ d.toNat ≤ depositUsd decimals reserves o.deposits[i] ∧
      depositUsd decimals reserves o.deposits[i] ≤
        cachedDeposit o.deposits[i] / 10 ^ d.toNat +
          depositUnitUsd decimals reserves o.deposits[i] := by
  by_cases hact : o.deposits[i].isActive = true
  · have hl := depositLayout_live.mpr hact
    obtain ⟨o₀, href⟩ := h.refreshed
    obtain ⟨r, hr, hpos, hd⟩ := h.deposits i hl
    have hcount : i.val < o₀.depositsCount.toNat := by
      rw [← (Ledger.refreshed href).depositsCount]
      exact (h.packed.deposits i).mp hl
    have hvalue := (((Ledger.refreshed href).deposits i).1 hcount).value rfl hl hr hpos
    have hbounds := usd_bounds (t := 10 ^ d.toNat) (by positivity)
      (Nat.div_mul_le_self _ 100) (le_depositValue_add r.quote o.deposits[i].depositedAmount.toNat)
    rw [cachedDeposit, depositUsd, depositUnitUsd, if_pos hact, if_pos hact, if_pos hact, hr,
      Option.elim_some, Option.elim_some, Reserve.usd, wholeToken_eq hd, hvalue]
    exact hbounds
  · simp only [cachedDeposit, depositUsd, depositUnitUsd, if_neg hact]
    simp

theorem Fresh.borrow_value (h : Fresh decimals {d} reserves accounts clock o)
    (i : Fin maxBorrowCountInReserve) :
    (cachedBorrow o.borrows[i] : ℚ) / 10 ^ d.toNat ≤ borrowUsd decimals reserves o.borrows[i] ∧
      borrowUsd decimals reserves o.borrows[i] ≤
        cachedBorrow o.borrows[i] / 10 ^ d.toNat +
          borrowUnitUsd decimals reserves o.borrows[i] := by
  by_cases hact : o.borrows[i].isActive = true
  · have hl := borrowLayout_live.mpr hact
    obtain ⟨o₀, href⟩ := h.refreshed
    obtain ⟨r, hr, hpos, hd⟩ := h.borrows i hl
    have hcount : i.val < o₀.borrowsCount.toNat := by
      rw [← (Ledger.refreshed href).borrowsCount]
      exact (h.packed.borrows i).mp hl
    have hvalue := (((Ledger.refreshed href).borrows i).1 hcount).value rfl hl hr hpos
    rw [cachedBorrow, borrowUsd, borrowUnitUsd, if_pos hact, if_pos hact, if_pos hact, hr,
      Option.elim_some, Option.elim_some, Reserve.usd, Reserve.usd, wholeToken_eq hd, hvalue]
    exact debt_bounds (by positivity)
  · simp only [cachedBorrow, borrowUsd, borrowUnitUsd, if_neg hact]
    simp

theorem unitUsd_nonneg (decimals : Pubkey → U8) (reserves : Pubkey → Option Reserve)
    (c : ObligationCollateral) (b : ObligationLiquidity) :
    0 ≤ depositUnitUsd decimals reserves c ∧ 0 ≤ borrowUnitUsd decimals reserves b := by
  unfold depositUnitUsd borrowUnitUsd Reserve.usd Reserve.wholeToken
  constructor
  · split
    · cases reserves c.depositReserve with
      | none => exact le_refl _
      | some r =>
          rw [Option.elim_some]
          positivity
    · exact le_refl _
  · split
    · cases reserves b.borrowReserve with
      | none => exact le_refl _
      | some r =>
          rw [Option.elim_some]
          positivity
    · exact le_refl _

/-- Both sums in USD are the cached ones, up to one atomic unit per slot. -/
theorem Fresh.sums (h : Fresh decimals {d} reserves accounts clock o) :
    (o.depositSum / 10 ^ d.toNat ≤ o.depositsUsd decimals reserves ∧
      o.depositsUsd decimals reserves ≤
        o.depositSum / 10 ^ d.toNat + o.unitsUsd decimals reserves) ∧
    (o.borrowSum / 10 ^ d.toNat ≤ o.borrowsUsd decimals reserves ∧
      o.borrowsUsd decimals reserves ≤
        o.borrowSum / 10 ^ d.toNat + o.unitsUsd decimals reserves) := by
  -- slot by slot: each cached value is a floor of its USD value
  have hdeposits : (o.depositSum : ℚ) / 10 ^ d.toNat =
      ∑ i : Fin maxDepositsCountInReserve, (cachedDeposit o.deposits[i] : ℚ) / 10 ^ d.toNat := by
    rw [o.depositSum_eq, ← Finset.sum_div, Nat.cast_sum]
    rfl
  have hborrows : (o.borrowSum : ℚ) / 10 ^ d.toNat =
      ∑ i : Fin maxBorrowCountInReserve, (cachedBorrow o.borrows[i] : ℚ) / 10 ^ d.toNat := by
    rw [o.borrowSum_eq, ← Finset.sum_div, Nat.cast_sum]
    rfl
  have hunits : 0 ≤ ∑ i : Fin maxDepositsCountInReserve,
        depositUnitUsd decimals reserves o.deposits[i] ∧
      0 ≤ ∑ i : Fin maxBorrowCountInReserve, borrowUnitUsd decimals reserves o.borrows[i] :=
    ⟨Finset.sum_nonneg fun i _ => (unitUsd_nonneg decimals reserves _ default).1,
      Finset.sum_nonneg fun i _ => (unitUsd_nonneg decimals reserves default _).2⟩
  have hdepositsUsd : o.depositsUsd decimals reserves ≤ _ :=
    Finset.sum_le_sum fun i _ => (h.deposit_value i).2
  have hborrowsUsd : o.borrowsUsd decimals reserves ≤ _ :=
    Finset.sum_le_sum fun i _ => (h.borrow_value i).2
  rw [Finset.sum_add_distrib] at hdepositsUsd hborrowsUsd
  rw [hdeposits, hborrows, Obligation.unitsUsd]
  refine ⟨⟨Finset.sum_le_sum fun i _ => (h.deposit_value i).1, ?_⟩,
    Finset.sum_le_sum fun i _ => (h.borrow_value i).1, ?_⟩
  · refine hdepositsUsd.trans ?_
    gcongr
    exact le_add_of_nonneg_right hunits.2
  · refine hborrowsUsd.trans ?_
    gcongr
    exact le_add_of_nonneg_left hunits.1

end Cached

/-! ## Equal decimals -/

section Equal

variable {key : Pubkey} {clock : Clock} {r r' : Reserve} {o o' : Obligation} {a : U64}

/-- A new slot has no cached value, so a borrow moves neither sum before its check. -/
theorem borrowSum_borrow {x c : U128} (hk : key ≠ default)
    (h : (o.borrow key x c).commit = .ok o') : o'.borrowSum = o.borrowSum := by
  rw [Obligation.borrowSum_eq, Obligation.borrowSum_eq]
  refine Finset.sum_congr rfl fun i _ => ?_
  obtain ⟨-, ⟨j, d, -, -, rfl⟩ | ⟨j, d, -, hfree, -, -, rfl⟩⟩ := Obligation.borrow_ok hk h
  · rw [Obligation.setBorrow_borrows, getElem_set_fin]
    split
    case isTrue hij => exact hij ▸ rfl
    case isFalse => rfl
  · rw [Obligation.openedBorrow, Obligation.setBorrow_borrows, getElem_set_fin]
    split
    case isTrue hij =>
      subst hij
      rw [if_neg (borrowLayout_live.not.mp hfree)]
      split
      · rfl
      · rfl
    case isFalse => rfl

theorem borrowSum_accrueInterest {i : Fin maxBorrowCountInReserve} {c : U128}
    (h : (o.accrueInterest i c).commit = .ok o') : o'.borrowSum = o.borrowSum := by
  rw [Obligation.borrowSum_eq, Obligation.borrowSum_eq]
  refine Finset.sum_congr rfl fun x _ => ?_
  rcases Obligation.accrueInterest_ok h with rfl | ⟨-, -, -, d, -, rfl⟩
  · rfl
  · rw [Obligation.grownBorrow, Obligation.setBorrow_borrows, getElem_set_fin]
    split
    case isTrue hij => exact hij ▸ rfl
    case isFalse => rfl

theorem borrowSum_accrueExisting {c : U128} (h : o.accrueExisting key c = .ok o') :
    o'.borrowSum = o.borrowSum := by
  unfold Obligation.accrueExisting at h
  split at h
  case h_1 => exact borrowSum_accrueInterest h
  case h_2 =>
    cases h
    rfl

theorem packedTables_accrueExisting {c : U128} (hpacked : o.PackedTables)
    (h : o.accrueExisting key c = .ok o') :
    o'.PackedTables ∧ o'.borrowSum = o.borrowSum := by
  refine ⟨?_, borrowSum_accrueExisting h⟩
  unfold Obligation.accrueExisting at h
  split at h
  case h_1 i _ =>
    rw [← Obligation.after_of_commit (c := .accrueInterest i c) h]
    exact Obligation.packedTables_after o _ hpacked ⟨fun _ hno => hno.elim, fun _ hno => hno.elim⟩
  case h_2 =>
    cases h
    exact hpacked

/-- What the health check of a borrow finds. -/
theorem BorrowSteps.sums (h : BorrowSteps clock key r o a r' o') (hk : key ≠ default)
    (hpacked : o.PackedTables) :
    o'.PackedTables ∧ o'.depositSum = o.depositSum ∧ o'.borrowSum = o.borrowSum ∧
      r'.liquidity.marketPriceSf = r.liquidity.marketPriceSf := by
  obtain ⟨r₁, o₁, hacc, hbor, ho₁, ho'⟩ := h
  obtain ⟨hpacked₁, hsum₁⟩ := packedTables_accrueExisting hpacked ho₁
  have hdeposits : o'.deposits = o.deposits :=
    (Obligation.frame_borrow hk ho').2.trans (frame_accrueExisting ho₁).2
  refine ⟨?_, ?_, (borrowSum_borrow hk ho').trans hsum₁, ?_⟩
  · rw [← Obligation.after_of_commit
      (c := .borrow ⟨key, hk⟩ a.toU128 r'.liquidity.cumulativeBorrowRateSf) ho']
    exact Obligation.packedTables_after o₁ _ hpacked₁ ⟨fun _ hno => hno.elim, fun _ hno => hno.elim⟩
  · rw [Obligation.depositSum, Obligation.depositSum, hdeposits]
  · exact (Reserve.keepsTerms_of_borrow hbor).price.trans (Reserve.accrues_of_ok hacc).price

theorem borrow_steps {market : LendingMarket} (h : borrow market clock key r o a = .ok (r', o')) :
    BorrowSteps clock key r o a r' o' := (borrow_ok h).steps

theorem checksUsd_singleton (decimals : Pubkey → U8) (d : U8) : ChecksUsd decimals {d} := by
  intro market reserves accounts clock o key r a r' o' hfresh hk hr hd
  obtain ⟨⟨hdeposits, hdeposits'⟩, hborrows, hborrows'⟩ := hfresh.sums
  have hloan : r.usd decimals a.toNat =
      ((a.toNat * r.liquidity.marketPriceSf.toNat : ℕ) : ℚ) / 10 ^ d.toNat := by
    rw [Reserve.usd, wholeToken_eq hd, Nat.cast_mul]
    exact div_mul_eq_mul_div _ _ _
  rw [hloan]
  constructor
  -- a borrow that went through has passed the check on the cached sums
  · intro hborrow
    obtain ⟨hpacked, hdsum, hbsum, hprice⟩ := (borrow_steps hborrow).sums hk hfresh.packed
    have hgate := Obligation.inlineHealthCheck_le hpacked.borrows.counted (borrow_ok hborrow).gate
    rw [hdsum, hbsum, hprice] at hgate
    have hgate' : (o.borrowSum : ℚ) / 10 ^ d.toNat +
        ((a.toNat * r.liquidity.marketPriceSf.toNat : ℕ) : ℚ) / 10 ^ d.toNat ≤
          o.depositSum / 10 ^ d.toNat := by
      rw [← add_div, ← Nat.cast_add]
      gcongr
    linarith only [hgate', hdeposits, hborrows']
  -- and a cached sum that exceeds the deposits exceeds them in USD, up to the units
  · intro hsteps hunhealthy
    obtain ⟨hpacked, hdsum, hbsum, hprice⟩ := hsteps.sums hk hfresh.packed
    have hgate := Obligation.lt_of_unhealthy hpacked.deposits.counted hpacked.borrows.counted
      hunhealthy
    rw [hdsum, hbsum, hprice] at hgate
    have hgate' : (o.depositSum : ℚ) / 10 ^ d.toNat ≤ (o.borrowSum : ℚ) / 10 ^ d.toNat +
        ((a.toNat * r.liquidity.marketPriceSf.toNat : ℕ) : ℚ) / 10 ^ d.toNat := by
      rw [← add_div, ← Nat.cast_add]
      gcongr
    linarith only [hgate', hdeposits', hborrows]

/-- The units a repayment buys, rounded down once per division. -/
theorem floor_boughtUsd {r q : Reserve} {decimals : Pubkey → U8} {d : U8} (n b : ℕ)
    (hr : decimals r.liquidity.mint ∈ ({d} : Set U8))
    (hq : decimals q.liquidity.mint ∈ ({d} : Set U8)) (hpos : 0 < q.quote.price) :
    ((n * r.quote.price * (10000 + b) / 10000 / q.quote.price : ℕ) : ℚ) ≤
        boughtUsd decimals r q n b ∧
      boughtUsd decimals r q n b <
        (n * r.quote.price * (10000 + b) / 10000 / q.quote.price : ℕ) + 1 := by
  have hexact : boughtUsd decimals r q n b =
      ((n * r.quote.price * (10000 + b) : ℕ) : ℚ) / ((10000 * q.quote.price : ℕ) : ℚ) := by
    have hprice : (q.quote.price : ℚ) ≠ 0 := Nat.cast_ne_zero.mpr hpos.ne'
    rw [boughtUsd, Reserve.usd, wholeToken_eq hr, wholeToken_eq hq]
    push_cast
    field_simp
  rw [hexact, Nat.div_div_eq_div_mul]
  have hdiv : (0 : ℚ) < ((10000 * q.quote.price : ℕ) : ℚ) := by
    rw [Nat.cast_pos]
    omega
  refine ⟨Nat.cast_div_le, (div_lt_iff₀ hdiv).mpr ?_⟩
  have hfloor := Nat.lt_div_mul_add (a := n * r.quote.price * (10000 + b))
    (Nat.cast_pos.mp hdiv)
  have hcast := (Nat.cast_lt (α := ℚ)).mpr hfloor
  push_cast at hcast ⊢
  linarith only [hcast]

theorem seizesUsd_singleton (decimals : Pubkey → U8) (d : U8) : SeizesUsd decimals {d} := by
  intro market clock repayKey withdrawKey reserves o a s r q q₁ j h hr hq hdr hdq hacc hj
  obtain ⟨r', r₁, q', q₁', i, j', o₁, hs⟩ := seize_parts (liquidate_ok h)
  obtain rfl : r' = r := Option.some.inj (hs.repayReserve.symm.trans hr)
  obtain ⟨q₀, hq₀, hacc'⟩ := hs.withdrawn
  obtain rfl : q₀ = q := Option.some.inj (hq₀.symm.trans hq)
  obtain rfl : q₁' = q₁ := Except.ok.inj (hacc'.symm.trans hacc)
  obtain rfl : j' = j := Except.ok.inj (hs.findDeposit.symm.trans hj)
  have hracc := Reserve.accrues_of_ok hs.repayAccrued
  have hqacc := Reserve.accrues_of_ok hacc
  have hpos : 0 < q₀.quote.price := by
    have hprice := hs.withdrawPrice
    rw [hqacc.price] at hprice
    exact ne_zero_iff_toNat_pos.mpr hprice
  obtain ⟨hle, hlt⟩ := floor_boughtUsd s.actualRepay.toNat
    q₀.config.liquidationBonusPct.toNat hdr hdq hpos
  refine ⟨_, hle, hlt, ?_⟩
  rw [hs.seized, hracc.price, hqacc.price, hqacc.config]
  rfl

end Equal

/-! ## Different decimals -/

/-- A reserve of 1000 atomic units at one dollar, lent against at full value. -/
def dollarReserve (mint : Pubkey) : Reserve where
  liquidity := { ReserveLiquidity.init mint (.key 6) (.key 7) with
    availableAmount := 1000, marketPriceSf := rateScale }
  config :=
    { depositLimit := 1000, borrowLimit := 1000, minBorrowRateBps := 200,
      optimalBorrowRateBps := 500, maxBorrowRateBps := 2000, optimalUtilizationBps := 8000,
      liquidationBonusPct := 500, protocolFee := 100, status := 0, loanToValuePct := 75,
      liquidationThresholdPct := 100, pythOracle := .key 11 }
  collateral := { ReserveCollateral.init (.key 8) (.key 9) with mintTotalSupply := 1000 }
  version := 1
  lastUpdateSlot := 9
  lendingMarket := .key 2

/-- One reserve to borrow from, and one to deposit in, with mints of their own. -/
def twoMints (k : Pubkey) : Option Reserve :=
  if k = .key 3 then some (dollarReserve (.key 13))
  else if k = .key 4 then some (dollarReserve (.key 14)) else none

/-- 1000 cTokens of the second reserve, before a refresh. -/
def unvaluedObligation : Obligation :=
  { (Obligation.init (.key 1) (.key 2)).setDeposit 0
      { depositReserve := .key 4, depositedAmount := 1000, marketValueSf := 0 } with
    depositsCount := 1 }

/-- The same after it. -/
def valuedObligation : Obligation :=
  { unvaluedObligation.setDeposit 0
      { depositReserve := .key 4, depositedAmount := 1000, marketValueSf := 1000 * rateScale } with
    lastUpdate := ⟨9, 900⟩ }

/-- Decimals for the two mints. -/
def mintDecimals (loan collateral : U8) (mint : Pubkey) : U8 :=
  if mint = .key 14 then collateral else loan

theorem refreshObligation_unvalued :
    refreshObligation twoMints [.key 4] ⟨9, 900⟩ unvaluedObligation = .ok valuedObligation := by
  decide +kernel

theorem isOk_borrow_valued :
    (borrow (.init (.key 1) 0) ⟨9, 900⟩ (.key 3) (dollarReserve (.key 13)) valuedObligation
      1000).isOk = true := by
  decide +kernel

theorem fresh_valued {loan collateral : U8} {ds : Set U8} (h : collateral ∈ ds) :
    Fresh (mintDecimals loan collateral) ds twoMints [.key 4] ⟨9, 900⟩ valuedObligation where
  refreshed := ⟨unvaluedObligation, refreshObligation_unvalued⟩
  packed := {
    deposits := by unfold Layout.Packed; decide +kernel
    borrows := by unfold Layout.Packed; decide +kernel
    depositsCount_le := by decide
    borrowsCount_le := by decide
    distinctDeposits := by unfold Layout.Distinct; decide +kernel
    distinctBorrows := by unfold Layout.Distinct; decide +kernel }
  deposits := by
    have hkey : ∀ i : Fin maxDepositsCountInReserve,
        depositLayout.Live valuedObligation.deposits[i] →
          valuedObligation.deposits[i].depositReserve = .key 4 := by decide +kernel
    intro i hi
    rw [hkey i hi]
    exact ⟨dollarReserve (.key 14), by decide, by decide, h⟩
  borrows := by
    have hnone : ∀ i : Fin maxBorrowCountInReserve,
        ¬ borrowLayout.Live valuedObligation.borrows[i] := by decide +kernel
    exact fun i hi => absurd hi (hnone i)

/-- A sum over the deposits of the position has one term. -/
theorem sum_valued {f : ObligationCollateral → ℚ} (hf : ∀ c, ¬ c.isActive = true → f c = 0) :
    ∑ i : Fin maxDepositsCountInReserve, f valuedObligation.deposits[i] =
      f { depositReserve := .key 4, depositedAmount := 1000,
          marketValueSf := 1000 * rateScale } := by
  have hothers : ∀ i : Fin maxDepositsCountInReserve, i ≠ 0 →
      ¬ valuedObligation.deposits[i].isActive = true := by decide +kernel
  rw [Finset.sum_eq_single 0 (fun i _ hi => hf _ (hothers i hi))
    (fun h => absurd (Finset.mem_univ _) h)]
  rfl

/-- The deposit is worth 1000 of its atomic units, and there is nothing else to round. -/
theorem usd_valued (loan collateral : U8) :
    valuedObligation.borrowsUsd (mintDecimals loan collateral) twoMints = 0 ∧
    valuedObligation.depositsUsd (mintDecimals loan collateral) twoMints =
      1000 / 10 ^ collateral.toNat * 10 ^ 12 ∧
    valuedObligation.unitsUsd (mintDecimals loan collateral) twoMints =
      10 ^ 12 / 10 ^ collateral.toNat := by
  have hborrows : ∀ i : Fin maxBorrowCountInReserve,
      ¬ valuedObligation.borrows[i].isActive = true := by decide +kernel
  have hunderlying : (dollarReserve (.key 14)).quote.underlying 1000 = 1000 := by decide
  have hprice : (dollarReserve (.key 14)).quote.price = 10 ^ 12 := by decide
  have hpct : (dollarReserve (.key 14)).quote.thresholdPct = 100 := by decide
  have hunit : (dollarReserve (.key 14)).quote.unitValue = 10 ^ 12 := by decide
  refine ⟨Finset.sum_eq_zero fun i _ => if_neg (hborrows i), ?_, ?_⟩
  · rw [Obligation.depositsUsd,
      sum_valued (f := depositUsd (mintDecimals loan collateral) twoMints) fun c hc => if_neg hc]
    show ((dollarReserve (.key 14)).quote.underlying 1000 : ℚ) / 10 ^ collateral.toNat *
      ((dollarReserve (.key 14)).quote.price : ℚ) *
        (((dollarReserve (.key 14)).quote.thresholdPct : ℚ) / 100) = _
    rw [hunderlying, hprice, hpct]
    push_cast
    ring
  · have hnone : ∑ i : Fin maxBorrowCountInReserve,
        borrowUnitUsd (mintDecimals loan collateral) twoMints valuedObligation.borrows[i] = 0 :=
      Finset.sum_eq_zero fun i _ => if_neg (hborrows i)
    rw [Obligation.unitsUsd, hnone, add_zero,
      sum_valued (f := depositUnitUsd (mintDecimals loan collateral) twoMints)
        fun c hc => if_neg hc]
    show ((dollarReserve (.key 14)).quote.unitValue : ℚ) / 10 ^ collateral.toNat = _
    rw [hunit]
    push_cast
    rfl

theorem not_checksUsd {loan collateral : U8} {ds : Set U8}
    (hlt : loan.toNat < collateral.toNat) (hloan : loan ∈ ds) (hcollateral : collateral ∈ ds) :
    ¬ ChecksUsd (mintDecimals loan collateral) ds := by
  intro hchecks
  cases hborrow : borrow (.init (.key 1) 0) ⟨9, 900⟩ (.key 3) (dollarReserve (.key 13))
      valuedObligation 1000 with
  | error e =>
      have hok := isOk_borrow_valued
      rw [hborrow] at hok
      cases hok
  | ok p =>
      obtain ⟨hle, -⟩ := hchecks (.init (.key 1) 0) twoMints [.key 4] ⟨9, 900⟩ valuedObligation
        (.key 3) (dollarReserve (.key 13)) 1000 p.1 p.2 (fresh_valued hcollateral) (by decide) rfl
        hloan
      have hle := hle hborrow
      obtain ⟨hborrows, hdeposits, hunits⟩ := usd_valued loan collateral
      have hloan : (dollarReserve (.key 13)).usd (mintDecimals loan collateral)
          (1000 : U64).toNat = 1000 / 10 ^ loan.toNat * 10 ^ 12 := by
        have hprice : (dollarReserve (.key 13)).quote.price = 10 ^ 12 := by decide
        have hwhole : (dollarReserve (.key 13)).wholeToken (mintDecimals loan collateral) =
            10 ^ loan.toNat := rfl
        have hamount : (1000 : U64).toNat = 1000 := rfl
        rw [Reserve.usd, hwhole, hprice, hamount]
        push_cast
        rfl
      rw [hborrows, hdeposits, hunits, hloan] at hle
      -- a whole token of the collateral is at least ten times as many atomic units
      have hpow : (10 : ℚ) ^ loan.toNat * 10 ≤ 10 ^ collateral.toNat := by
        rw [← pow_succ]
        exact pow_le_pow_right₀ (by norm_num) hlt
      have hpos : (0 : ℚ) < 10 ^ loan.toNat := by positivity
      generalize (10 : ℚ) ^ loan.toNat = t at hle hpow hpos
      generalize (10 : ℚ) ^ collateral.toNat = t' at hle hpow
      have hpos' : 0 < t' := by linarith only [hpow, hpos]
      have hclear : 1000 * t' ≤ 1001 * t := by
        have hle' : 1000 / t ≤ 1001 / t' := by
          have h₁ : (1000 : ℚ) / t * 10 ^ 12 ≤ 1001 / t' * 10 ^ 12 := by
            calc (1000 : ℚ) / t * 10 ^ 12 = 0 + 1000 / t * 10 ^ 12 := by ring
              _ ≤ 1000 / t' * 10 ^ 12 + 10 ^ 12 / t' := hle
              _ = 1001 / t' * 10 ^ 12 := by ring
          exact le_of_mul_le_mul_right h₁ (by positivity)
        rwa [div_le_div_iff₀ hpos hpos'] at hle'
      linarith only [hclear, hpow, hpos]

/-- Valuations are independent of the mints' decimals exactly where these do not differ. -/
theorem independent_iff_subsingleton (ds : Set U8) : Independent ds ↔ ds.Subsingleton := by
  constructor
  · intro h d hd d' hd'
    by_contra hne
    rcases Nat.lt_or_gt_of_ne fun he => hne (BitVec.eq_of_toNat_eq he) with hlt | hgt
    · exact not_checksUsd hlt hd hd' (h (mintDecimals d d')).1
    · exact not_checksUsd hgt hd' hd (h (mintDecimals d' d)).1
  · intro h decimals
    rcases h.eq_empty_or_singleton with rfl | ⟨d, rfl⟩
    · constructor
      · intro _ _ _ _ _ _ _ _ _ _ _ _ _ hd
        exact absurd hd (Set.notMem_empty _)
      · intro _ _ _ _ _ _ _ _ _ _ _ _ _ _ _ hd
        exact absurd hd (Set.notMem_empty _)
    · exact ⟨checksUsd_singleton decimals d, seizesUsd_singleton decimals d⟩

/-- A thousandth of a dollar is lent against a millionth. -/
theorem not_independent_univ : ¬ Independent Set.univ := by
  intro h
  have hlt : (6 : U8).toNat < (9 : U8).toNat := by decide
  exact not_checksUsd hlt (Set.mem_univ _) (Set.mem_univ _) (h (mintDecimals 6 9)).1

end Ledger

end VeilVault
