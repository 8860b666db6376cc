/-
# VeilVault.Ledger.Units — what each ledger part does to the whole units owed.

`Obligation.Moves` for every instruction that touches debts, as long as the reserve's index stands:
the slots are accrued to the index they have, so only borrowed and repaid amounts move the total.
What a liquidation takes is written out in numbers that its inputs determine (`takes`).
-/
import VeilVault.Ledger.Coherence
import VeilVault.Obligation.Units

namespace VeilVault

open Kit Kit.Outcome

/-- The index of the reserve at an address. -/
def indexAt (reserves : Pubkey → Option Reserve) (k : Pubkey) : Option U128 :=
  (reserves k).map (·.liquidity.cumulativeBorrowRateSf)

theorem indexAt_eq_some {reserves : Pubkey → Option Reserve} {k : Pubkey} {r : Reserve}
    (hr : reserves k = some r) : indexAt reserves k = some r.liquidity.cumulativeBorrowRateSf := by
  rw [indexAt, hr]
  rfl

namespace Ledger

variable {market : LendingMarket} {clock : Clock} {key x : Pubkey} {r r' : Reserve}
  {o o' : Obligation} {a : U64} {index : Option U128} {reserves : Pubkey → Option Reserve}

theorem moves_accrueExisting {c : U128} (h : o.StandsAt x index) (hc : key = x → some c = index)
    (hacc : o.accrueExisting key c = .ok o') : o.Moves o' x index 0 0 := by
  unfold Obligation.accrueExisting at hacc
  rcases o.findBorrow_cases key with ⟨i, hf⟩ | ⟨hf, -⟩
  · rw [hf] at hacc
    have hkey := (Obligation.findBorrow_eq_ok.mp hf).1
    exact h.accrueInterest (fun hx => hc (hkey.symm.trans hx)) hacc
  · rw [hf] at hacc
    cases hacc
    exact h.moves_self

theorem Borrows.moves (hb : Borrows clock key r o a r' o') (h : o.StandsAt x index)
    (hk : key ≠ default) (hx : x ≠ default)
    (hc : key = x → some r'.liquidity.cumulativeBorrowRateSf = index) :
    o.Moves o' x index (if x = key then a.toNat else 0) 0 := by
  obtain ⟨r₁, o₁, -, -, ho₁, hbor⟩ := hb.steps
  have hacc := moves_accrueExisting h hc ho₁
  have hadd := hacc.trans (hacc.standsAt.borrow hk hx hc hbor)
  rw [toNat_toU128, Nat.zero_add] at hadd
  exact hadd

theorem moves_accrueRepay {o₁ : Obligation} {i : Fin maxBorrowCountInReserve} {c : U128}
    (h : o.StandsAt x index) (hx : x ≠ default) (hc : key = x → some c = index)
    (hf : o.findBorrow key = .ok i) (hacc : (o.accrueInterest i c).commit = .ok o₁)
    (hrep : (o₁.repay key a.toU128).commit = .ok o') :
    o.Moves o' x index 0 (if x = key then a.toNat else 0) := by
  have hkey := (Obligation.findBorrow_eq_ok.mp hf).1
  have hgrow := h.accrueInterest (fun hkx => hc (hkey.symm.trans hkx)) hacc
  have hless := hgrow.trans (hgrow.standsAt.repay hx hrep)
  rw [toNat_toU128, Nat.zero_add, Nat.zero_add] at hless
  exact hless

theorem moves_repay (hrep : repay clock key r o a = .ok (r', o')) (h : o.StandsAt x index)
    (hx : x ≠ default) (hc : key = x → some r'.liquidity.cumulativeBorrowRateSf = index) :
    o.Moves o' x index 0 (if x = key then a.toNat else 0) := by
  obtain ⟨r₁, i, o₁, -, hpaid, hf, hacc, ho'⟩ := repay_ok hrep
  rw [(Reserve.keepsTerms_of_repay hpaid).rate] at hc
  exact moves_accrueRepay h hx hc hf hacc ho'

theorem moves_withdrawCollateral (hwd : withdrawCollateral market clock key o a = .ok o')
    (h : o.StandsAt x index) : o.Moves o' x index 0 0 := by
  obtain ⟨i, m, -, -, ho', -⟩ := withdrawCollateral_ok hwd
  exact h.moves_of_borrows ((Obligation.borrows_withdraw ho').trans rfl)

/-- A refresh accrues the slots to the index they have. -/
theorem moves_refreshObligation {accounts : List Pubkey}
    (href : refreshObligation reserves accounts clock o = .ok o')
    (h : o.StandsAt x (indexAt reserves x)) : o.Moves o' x (indexAt reserves x) 0 0 := by
  obtain ⟨-, hgrown, -⟩ := refreshObligation_ok href
  have hsame : ∀ i : Fin maxBorrowCountInReserve, o.borrows[i].borrowReserve = x →
      o'.borrows[i].borrowedAmountSf = o.borrows[i].borrowedAmountSf ∧
        o'.borrows[i].cumulativeBorrowRateSf = o.borrows[i].cumulativeBorrowRateSf := by
    intro i hkey
    obtain ⟨-, hsame | ⟨r, hr, hlt, -⟩⟩ := hgrown i
    · exact hsame
    · have hindex := h i hkey
      rw [hkey] at hr
      rw [indexAt_eq_some hr, Option.some.injEq] at hindex
      rw [hindex] at hlt
      exact absurd hlt (Nat.lt_irrefl _)
  constructor
  · intro i hkey
    rw [(hgrown i).1] at hkey
    rw [(hsame i hkey).2]
    exact h i hkey
  · show o'.owed x + 0 = o.owed x + 0
    rw [Obligation.owed_congr_slots fun i => ⟨(hgrown i).1, fun hkey => (hsame i hkey).1⟩]

/-! ## Liquidation -/

/-- What a liquidation repays and seizes: at most half of the debt, and the cTokens that buys, as
far as there are any. -/
def takes (slot : U64) (reserves : Pubkey → Option Reserve) (o : Obligation)
    (repayKey withdrawKey : Pubkey) (amount : U64) : Option (ℕ × ℕ) := do
  let i ← (o.findBorrow repayKey).toOption
  let j ← (o.findDeposit withdrawKey).toOption
  let r ← reserves repayKey
  let r ← (r.accrueInterest slot).toOption
  let q ← reserves withdrawKey
  let q ← (q.accrueInterest slot).toOption
  let repaid := repayment o.borrows[i] r.quote.rate amount
  return (repaid, min (boughtCtokens repaid r.quote.price q.quote.price q.quote.total
    q.quote.supply q.config.liquidationBonusPct.toNat) o.deposits[j].depositedAmount.toNat)

section Seizes

variable {repayKey withdrawKey : Pubkey} {s : Seizure} {r₁ q q₁ : Reserve}
  {i : Fin maxBorrowCountInReserve} {j : Fin maxDepositsCountInReserve} {o₁ : Obligation}

theorem Seizes.takes (hs : Seizes clock repayKey withdrawKey reserves o a s r r₁ q q₁ i j o₁) :
    takes clock.slot reserves o repayKey withdrawKey a =
      some (s.actualRepay.toNat, s.ctokensToSeize.toNat) := by
  obtain ⟨q₀, hq₀, hacc⟩ := hs.withdrawn
  have hdebt := Obligation.debtAt_of_accrueInterest hs.accrued
  have hrepaid : repayment o.borrows[i] r₁.quote.rate a = s.actualRepay.toNat := by
    rw [hs.repaid, hdebt]
    rfl
  have hseized : s.ctokensToSeize.toNat = min (boughtCtokens s.actualRepay.toNat r₁.quote.price
      q₁.quote.price q₁.quote.total q₁.quote.supply q₁.config.liquidationBonusPct.toNat)
      o.deposits[j].depositedAmount.toNat := hs.seized
  rw [Ledger.takes, hs.borrow, hs.findDeposit, hs.repayReserve, hq₀]
  simp only [Except.toOption, hs.repayAccrued, hacc, Option.bind_eq_bind, Option.bind_some,
    hrepaid, hseized]
  rfl

/-- An index that stands over the whole liquidation stands where the debt is accrued. -/
theorem Seizes.rate_eq (hs : Seizes clock repayKey withdrawKey reserves o a s r r₁ q q₁ i j o₁)
    (hstands : indexAt s.reserves repayKey = indexAt reserves repayKey) :
    some r₁.liquidity.cumulativeBorrowRateSf = indexAt reserves repayKey := by
  obtain ⟨r₃, hpaid, hreserves⟩ := hs.paid
  rw [← hstands, hreserves, indexAt, store_self]
  exact congrArg some (Reserve.keepsTerms_of_repay hpaid).rate.symm

theorem Seizes.moves (hs : Seizes clock repayKey withdrawKey reserves o a s r r₁ q q₁ i j o₁)
    (h : o.StandsAt x index) (hx : x ≠ default)
    (hc : repayKey = x → some r₁.liquidity.cumulativeBorrowRateSf = index) :
    o.Moves s.obligation x index 0 (if x = repayKey then s.actualRepay.toNat else 0) := by
  obtain ⟨o₂, ho₂, ho₃⟩ := hs.obligation
  have hpaid := moves_accrueRepay h hx hc hs.borrow hs.accrued ho₂
  exact hpaid.trans (hpaid.standsAt.withdraw ho₃)

end Seizes

end Ledger

end VeilVault
