/-
# VeilVault.World.Liquidation — a liquidation among all accounts.

The two instructions that liquidate share their accounts and settle alike.  Whichever of them
succeeds, it computes one `Ledger.Seizure`; its books are those of `Ledger.Liquidates` at the two
amounts of the seizure, on the one obligation it was given, and its tokens are the same amounts.
-/
import VeilVault.Ledger.Liquidation
import VeilVault.World.Coherence

namespace VeilVault

open Kit

namespace Instruction

/-- The accounts and the repayment asked for, of an instruction that liquidates. -/
def liquidation : Instruction → Option (LiquidationAccounts × U64)
  | .liquidate a repayAmount => some (a, repayAmount)
  | .executePrivateLiquidation a repayAmount => some (a.toLiquidationAccounts, repayAmount)
  | _ => none

end Instruction

namespace World

variable {mxe : Mxe} {w w' : World} {ix : Instruction} {a : LiquidationAccounts} {amount : U64}

/-- The tokens of a liquidation: `paid` from the liquidator to the vault of the repaid reserve, and
`seized` cTokens from the collateral vault to the liquidator. -/
def LiquidationTransfers (a : LiquidationAccounts) (paid seized : U64)
    (t t' : TokenLedger Pubkey) : Prop :=
  ∃ t₁, t.transfer a.liquidatorRepayTokenAccount a.repayReserveMint a.repayLiquidityVault
      a.liquidator paid = .ok t₁ ∧
    t₁.transfer a.collateralSupplyVault a.withdrawCollateralMint a.liquidatorCollateralAccount
      a.lendingMarket seized = .ok t'

theorem settleSeizure_transfers {s : Ledger.Seizure} (h : w.settleSeizure a s = .ok w') :
    LiquidationTransfers a s.actualRepay s.ctokensToSeize w.tokens w'.tokens := by
  simp only [settleSeizure, bind_eq_ok, cpi_eq_ok, pure_eq_ok] at h
  obtain ⟨t₁, hpaid, t, hseized, rfl⟩ := h
  exact ⟨t₁, hpaid, hseized⟩

/-- What an instruction that liquidates does with a seizure: it writes back what that leaves, and
moves the tokens it says. -/
structure Settled (a : LiquidationAccounts) (s : Ledger.Seizure) (w w' : World) : Prop where
  reserves : w'.reserves = s.reserves
  obligations : w'.obligations = store w.obligations a.obligation s.obligation
  tokens : LiquidationTransfers a s.actualRepay s.ctokensToSeize w.tokens w'.tokens

/-- Either instruction seizes from the obligation it was given, and settles that. -/
theorem exec_liquidation (hix : ix.liquidation = some (a, amount))
    (h : w.exec mxe ix = .ok w') :
    ∃ gate o s, w.obligations a.obligation = some o ∧
      Ledger.seize gate w.clock a.repayReserve a.withdrawReserve w.reserves o amount = .ok s ∧
      Settled a s w w' := by
  cases ix with
  | liquidate b n =>
      cases hix
      simp only [exec, World.liquidate, bind_eq_ok, Prod.exists] at h
      obtain ⟨m, o, hcheck, s, hled, hsettle⟩ := h
      obtain ⟨-, ho, -⟩ := LiquidationAccounts.check_ok hcheck
      exact ⟨_, o, s, ho, Ledger.liquidate_ok hled, settleSeizure_reserves hsettle,
        settleSeizure_obligations hsettle, settleSeizure_transfers hsettle⟩
  | executePrivateLiquidation b n =>
      cases hix
      simp only [exec, World.executePrivateLiquidation, bind_eq_ok, pure_eq_ok, Prod.exists] at h
      obtain ⟨m, o, hcheck, p, -, ⟨⟩, -, s, hled, v, hsettle, rfl⟩ := h
      obtain ⟨-, ho, -⟩ := LiquidationAccounts.check_ok hcheck
      have hreserves : v.reserves = s.reserves := settleSeizure_reserves hsettle
      have hobligations : v.obligations = store w.obligations b.obligation s.obligation :=
        settleSeizure_obligations hsettle
      have htokens : LiquidationTransfers b.toLiquidationAccounts s.actualRepay s.ctokensToSeize
          w.tokens v.tokens := settleSeizure_transfers hsettle
      exact ⟨_, o, s, ho, (Ledger.executePrivateLiquidation_ok hled).2, hreserves, hobligations,
        htokens⟩
  | _ => cases hix

/-- Every liquidation that succeeds settles to the unit.  With `s` for what it computes, the
repayment is what is asked for up to half of the debt, the seizure what that buys up to the deposit;
these two amounts and no others are booked, in the reserve, the debt slot and the deposit slot, and
moved as tokens; and no other slot and no other obligation changes. -/
theorem liquidation_settles (hix : ix.liquidation = some (a, amount))
    (h : w.exec mxe ix = .ok w') :
    ∃ gate o s r₁ q₁ i j o₁,
      w.obligations a.obligation = some o ∧ w'.obligations a.obligation = some s.obligation ∧
      (∀ k, k ≠ a.obligation → w'.obligations k = w.obligations k) ∧
      Ledger.seize gate w.clock a.repayReserve a.withdrawReserve w.reserves o amount = .ok s ∧
      LiquidationTransfers a s.actualRepay s.ctokensToSeize w.tokens w'.tokens ∧
      s.actualRepay.toNat =
        Ledger.repayment o.borrows[i] r₁.liquidity.cumulativeBorrowRateSf amount ∧
      s.ctokensToSeize.toNat =
        min (Ledger.boughtCtokens s.actualRepay.toNat r₁.liquidity.marketPriceSf.toNat
          q₁.liquidity.marketPriceSf.toNat q₁.liquidity.totalSupplyOrZero.toNat
          q₁.collateral.mintTotalSupply.toNat q₁.config.liquidationBonusPct.toNat)
        o.deposits[j].depositedAmount.toNat ∧
      Ledger.Liquidates w.clock a.repayReserve a.withdrawReserve w.reserves w'.reserves o
        s.obligation amount s.actualRepay.toNat s.ctokensToSeize.toNat r₁ q₁ i j o₁ := by
  obtain ⟨gate, o, s, ho, hseize, hsettled⟩ := exec_liquidation hix h
  obtain ⟨r, r₁, q, q₁, i, j, o₁, hs⟩ := Ledger.seize_parts hseize
  refine ⟨gate, o, s, r₁, q₁, i, j, o₁, ho, ?_, ?_, hseize, hsettled.tokens, hs.actualRepay_eq,
    hs.seized, ?_⟩
  · rw [hsettled.obligations, store_self]
  · intro k hk
    rw [hsettled.obligations, store_of_ne _ _ hk]
  · rw [hsettled.reserves]
    exact hs.liquidates

/-- A liquidator asks for the whole debt of 1000, and gets to pay at most half of it. -/
theorem liquidation_settles_halved : ∃ w' o, ∃ s : Ledger.Seizure, ∃ r₁ q₁ i j o₁,
    refreshedWorld.exec plainMxe (liquidation ((seizeFrom 1).toLiquidationAccounts, 1000)) =
      .ok w' ∧
    LiquidationTransfers (seizeFrom 1).toLiquidationAccounts s.actualRepay s.ctokensToSeize
      refreshedWorld.tokens w'.tokens ∧
    s.actualRepay.toNat =
      Ledger.repayment o.borrows[i] r₁.liquidity.cumulativeBorrowRateSf 1000 ∧
    Ledger.Liquidates refreshedWorld.clock usdReserve usdReserve refreshedWorld.reserves
      w'.reserves o s.obligation 1000 s.actualRepay.toNat s.ctokensToSeize.toNat r₁ q₁ i j o₁ := by
  have hok : (refreshedWorld.exec plainMxe
      (liquidation ((seizeFrom 1).toLiquidationAccounts, 1000))).isOk = true := by decide +kernel
  obtain ⟨w', hw'⟩ := exists_ok_of_isOk hok
  obtain ⟨gate, o, s, r₁, q₁, i, j, o₁, -, -, -, -, htokens, hrepay, -, hsettles⟩ :=
    liquidation_settles rfl hw'
  exact ⟨w', o, s, r₁, q₁, i, j, o₁, hw', htokens, hrepay, hsettles⟩

end World

end VeilVault
