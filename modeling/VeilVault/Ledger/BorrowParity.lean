/-
# VeilVault.Ledger.BorrowParity — is the private borrow path as strict as the public one?

The two ledger parts differ in two conditions only.  `borrow` always demands a price and an
obligation refreshed in this slot; `private_borrow` demands them only of a reserve whose
configuration names an oracle.  `borrow_iff_privateBorrow` states the difference exactly, and the
rest reads it in both directions.
-/
import VeilVault.Ledger.Position

namespace VeilVault

open Kit

namespace Ledger

variable {market : LendingMarket} {isInitialized : Bool} {clock : Clock} {key : Pubkey}
  {reserve : Reserve} {obligation : Obligation} {amount : U64} {res : Reserve × Obligation}

/-- A public borrow is a private one of an initialised position that is also priced and fresh. -/
theorem borrow_iff_privateBorrow :
    borrow market clock key reserve obligation amount = .ok res ↔
      privateBorrow market true clock key reserve obligation amount = .ok res ∧
        reserve.liquidity.marketPriceSf > 0 ∧
        obligation.lastUpdate.isSlotStale clock.slot = false := by
  simp only [borrow, privateBorrow, bind_eq_ok, require_eq_ok, pure_eq_ok, exists_const]
  constructor
  · rintro ⟨hpause, hamount, hactive, hprice, r₁, hr₁, r₂, hr₂, hfresh, rest⟩
    exact ⟨⟨hamount, trivial, hpause, hactive, .inr hprice, r₁, hr₁, r₂, hr₂, .inr hfresh, rest⟩,
      hprice, hfresh⟩
  · rintro ⟨⟨hamount, -, hpause, hactive, -, r₁, hr₁, r₂, hr₂, -, rest⟩, hprice, hfresh⟩
    exact ⟨hpause, hamount, hactive, hprice, r₁, hr₁, r₂, hr₂, hfresh, rest⟩

/-- What a successful private borrow has checked. -/
theorem privateBorrow_checks
    (h : privateBorrow market isInitialized clock key reserve obligation amount = .ok res) :
    isInitialized = true ∧
      (reserve.config.pythOracle = default ∨ reserve.liquidity.marketPriceSf > 0) ∧
      (reserve.config.pythOracle = default ∨
        obligation.lastUpdate.isSlotStale clock.slot = false) := by
  simp only [privateBorrow, bind_eq_ok, require_eq_ok, exists_const, ne_eq, Decidable.not_not] at h
  obtain ⟨-, hinit, -, -, hprice, r₁, -, r₂, -, hfresh, -⟩ := h
  exact ⟨hinit, hprice, hfresh⟩

/-- With an oracle configured, or a price present and the obligation refreshed in this slot, every
private borrow that succeeds would have succeeded publicly, with the same result. -/
theorem borrow_of_privateBorrow
    (h : privateBorrow market isInitialized clock key reserve obligation amount = .ok res)
    (hgate : reserve.config.pythOracle ≠ default ∨
      (reserve.liquidity.marketPriceSf > 0 ∧
        obligation.lastUpdate.isSlotStale clock.slot = false)) :
    borrow market clock key reserve obligation amount = .ok res := by
  obtain ⟨rfl, hprice, hfresh⟩ := privateBorrow_checks h
  rw [borrow_iff_privateBorrow]
  rcases hgate with horacle | ⟨hp, hf⟩
  · exact ⟨h, hprice.resolve_left horacle, hfresh.resolve_left horacle⟩
  · exact ⟨h, hp, hf⟩

/-! ## A reserve without an oracle -/

/-- A reserve with 100 units of liquidity, accrued to slot 9. -/
def liquidReserve (pythOracle : Pubkey) (marketPriceSf : U128) : Reserve where
  liquidity := { ReserveLiquidity.init (.key 5) (.key 6) (.key 7) with
    availableAmount := 100, marketPriceSf }
  config :=
    { depositLimit := 1000, borrowLimit := 1000, minBorrowRateBps := 200,
      optimalBorrowRateBps := 500, maxBorrowRateBps := 2000, optimalUtilizationBps := 8000,
      liquidationBonusPct := 500, protocolFee := 100, status := 0, loanToValuePct := 75,
      liquidationThresholdPct := 85, pythOracle }
  collateral := { ReserveCollateral.init (.key 8) (.key 9) with mintTotalSupply := 100 }
  version := 1
  lastUpdateSlot := 9
  lendingMarket := .key 2

/-- An obligation refreshed at slot 9 with collateral worth 70 units at price one. -/
def pledgedObligation : Obligation :=
  { (Obligation.init (.key 1) (.key 2)).setDeposit 0
      { depositReserve := .key 4, depositedAmount := 100, marketValueSf := 70 * rateScale } with
    depositsCount := 1
    lastUpdate := ⟨9, 900⟩ }

theorem borrow_of_privateBorrow_liquid :
    borrow (.init (.key 1) 0) ⟨9, 900⟩ (.key 3) (liquidReserve (.key 11) rateScale)
      pledgedObligation 40 =
    privateBorrow (.init (.key 1) 0) true ⟨9, 900⟩ (.key 3) (liquidReserve (.key 11) rateScale)
      pledgedObligation 40 := by
  cases h : privateBorrow (.init (.key 1) 0) true ⟨9, 900⟩ (.key 3)
      (liquidReserve (.key 11) rateScale) pledgedObligation 40 with
  | ok res => exact borrow_of_privateBorrow h (.inl (by decide))
  | error e =>
      have hok : (privateBorrow (.init (.key 1) 0) true ⟨9, 900⟩ (.key 3)
        (liquidReserve (.key 11) rateScale) pledgedObligation 40).isOk = true := by decide +kernel
      rw [h] at hok
      cases hok

/-- No oracle, no price, no collateral, an obligation never refreshed: the private path lends 40
units, the public one refuses. -/
theorem not_forall_borrow_of_privateBorrow :
    ¬ ∀ (market : LendingMarket) (isInitialized : Bool) (clock : Clock) (key : Pubkey)
        (reserve : Reserve) (obligation : Obligation) (amount : U64) (res : Reserve × Obligation),
        privateBorrow market isInitialized clock key reserve obligation amount = .ok res →
        borrow market clock key reserve obligation amount = .ok res := by
  intro hall
  cases h : privateBorrow (.init (.key 1) 0) true ⟨9, 900⟩ (.key 3) (liquidReserve default 0)
      (.init (.key 1) (.key 2)) 40 with
  | ok res =>
      have hpublic := hall _ _ _ _ _ _ _ _ h
      have hprice := (borrow_iff_privateBorrow.mp hpublic).2.1
      exact absurd hprice (by decide)
  | error e =>
      have hok : (privateBorrow (.init (.key 1) 0) true ⟨9, 900⟩ (.key 3) (liquidReserve default 0)
        (.init (.key 1) (.key 2)) 40).isOk = true := by decide +kernel
      rw [h] at hok
      cases hok

end Ledger

end VeilVault
