/-
# VeilVault.World.FreshPrices — how old the prices behind a health decision are.

A price is tested for age when `refresh_reserve` reads it from the oracle, and never again.  An
obligation is tested for the slot of its last refresh; but the refresh values it at the stored
prices, whenever those were published, skips a slot whose reserve has no price, and does not reach
an active slot outside the counted prefix.  `LastUpdate::is_price_stale` has no caller.

To say which prices entered a decision, runs are dated: `Dated` keeps, beside the world, the
publication time of the price behind each cached value.  Dates are written and never read
(`world_foldl`).
-/
import VeilVault.Ledger.Valuation
import VeilVault.World.Vaults

namespace VeilVault

open Kit Kit.Outcome World

/-! ## The refresh stamp

Only a refresh moves it. -/

namespace Obligation

variable {o o' : Obligation} {k : Pubkey}

theorem lastUpdate_deposit {a : U64} (hk : k ≠ default) (h : (o.deposit k a).commit = .ok o') :
    o'.lastUpdate = o.lastUpdate := by
  obtain ⟨-, ⟨i, d, -, -, rfl⟩ | ⟨i, -, rfl⟩⟩ := deposit_ok hk h
  · rfl
  · rfl

theorem lastUpdate_withdraw {a : U64} (h : (o.withdraw k a).commit = .ok o') :
    o'.lastUpdate = o.lastUpdate := by
  obtain ⟨-, i, -, ⟨-, rfl⟩ | ⟨left, -, -, rfl⟩⟩ := withdraw_ok h
  · rfl
  · rfl

theorem lastUpdate_borrow {a c : U128} (hk : k ≠ default)
    (h : (o.borrow k a c).commit = .ok o') : o'.lastUpdate = o.lastUpdate := by
  obtain ⟨-, ⟨i, d, -, -, rfl⟩ | ⟨i, d, -, -, -, -, rfl⟩⟩ := borrow_ok hk h
  · rfl
  · rfl

theorem lastUpdate_repay {a : U128} (h : (o.repay k a).commit = .ok o') :
    o'.lastUpdate = o.lastUpdate := by
  obtain ⟨-, i, -, left, -, ⟨-, rfl⟩ | rfl⟩ := repay_ok h
  · rfl
  · rfl

theorem lastUpdate_accrueInterest {i : Fin maxBorrowCountInReserve} {c : U128}
    (h : (o.accrueInterest i c).commit = .ok o') : o'.lastUpdate = o.lastUpdate := by
  rcases accrueInterest_ok h with rfl | ⟨-, -, -, d, -, rfl⟩
  · rfl
  · rfl

theorem lastUpdate_accrueExisting {c : U128} (h : o.accrueExisting k c = .ok o') :
    o'.lastUpdate = o.lastUpdate := by
  unfold Obligation.accrueExisting at h
  rcases o.findBorrow_cases k with ⟨i, hf⟩ | ⟨hf, -⟩
  · rw [hf] at h
    exact lastUpdate_accrueInterest h
  · rw [hf] at h
    cases h
    rfl

end Obligation

namespace Ledger

variable {clock : Clock} {k : Pubkey} {r r' : Reserve} {o o' : Obligation} {a : U64}

theorem Borrows.lastUpdate (hk : k ≠ default) (h : Borrows clock k r o a r' o') :
    o'.lastUpdate = o.lastUpdate := by
  obtain ⟨r₁, o₁, -, -, ho₁, hbor⟩ := h.steps
  exact (Obligation.lastUpdate_borrow hk hbor).trans (Obligation.lastUpdate_accrueExisting ho₁)

theorem lastUpdate_repay (h : repay clock k r o a = .ok (r', o')) :
    o'.lastUpdate = o.lastUpdate := by
  obtain ⟨r₁, i, o₁, -, -, -, ho₁, hrep⟩ := repay_ok h
  exact (Obligation.lastUpdate_repay hrep).trans (Obligation.lastUpdate_accrueInterest ho₁)

theorem lastUpdate_withdrawCollateral {market : LendingMarket}
    (h : withdrawCollateral market clock k o a = .ok o') : o'.lastUpdate = o.lastUpdate := by
  obtain ⟨i, m, -, -, hwd, -⟩ := withdrawCollateral_ok h
  exact (Obligation.lastUpdate_withdraw hwd).trans rfl

theorem lastUpdate_seize {gate : Obligation → Result Unit} {repayKey withdrawKey : Pubkey}
    {reserves : Pubkey → Option Reserve} {s : Seizure}
    (h : seize gate clock repayKey withdrawKey reserves o a = .ok s) :
    s.obligation.lastUpdate = o.lastUpdate := by
  obtain ⟨r, r₁, q, q₁, i, o₁, o₂, r₂, r₃, -, -, -, -, -, ho₁, ho₂, ho₃, -, -, -⟩ := seize_ok h
  exact ((Obligation.lastUpdate_withdraw ho₃).trans (Obligation.lastUpdate_repay ho₂)).trans
    (Obligation.lastUpdate_accrueInterest ho₁)

/-! ## Decisions -/

/-- Each of the three decisions wants a refresh in the same slot. -/
theorem slot_of_borrow {market : LendingMarket}
    (h : borrow market clock k r o a = .ok (r', o')) : o.lastUpdate.slot = clock.slot := by
  simp only [borrow, bind_eq_ok, require_eq_ok, exists_const, LastUpdate.isSlotStale_eq_false] at h
  obtain ⟨-, -, -, -, r₁, -, r₂, -, hslot, -⟩ := h
  exact hslot

theorem slot_of_withdrawCollateral {market : LendingMarket}
    (h : withdrawCollateral market clock k o a = .ok o') : o.lastUpdate.slot = clock.slot := by
  simp only [withdrawCollateral, bind_eq_ok, require_eq_ok, exists_const,
    LastUpdate.isSlotStale_eq_false] at h
  obtain ⟨-, -, hslot, -⟩ := h
  exact hslot

theorem slot_of_seize {gate : Obligation → Result Unit} {repayKey withdrawKey : Pubkey}
    {reserves : Pubkey → Option Reserve} {s : Seizure}
    (h : seize gate clock repayKey withdrawKey reserves o a = .ok s) :
    o.lastUpdate.slot = clock.slot := by
  simp only [seize, bind_eq_ok, require_eq_ok, exists_const, LastUpdate.isSlotStale_eq_false] at h
  obtain ⟨r, -, r₁, -, q, -, q₁, -, t, -, hslot, -⟩ := h
  exact hslot

end Ledger

/-- The obligation an instruction refreshes. -/
def Instruction.refreshed : Instruction → Option Pubkey
  | .refreshObligation _ key _ => some key
  | _ => none

/-- The obligation on whose health an instruction depends, and the reserves whose price it reads. -/
def Instruction.decides : Instruction → Option (Pubkey × List Pubkey)
  | .borrow a _ => some (a.obligation, [a.reserve])
  | .withdrawCollateral a _ => some (a.obligation, [])
  | .liquidate a _ => some (a.obligation, [a.repayReserve, a.withdrawReserve])
  | _ => none

/-- The time an instruction of the outside world brings. -/
def Instruction.time : Instruction → Option Clock
  | .advanceClock clock => some clock
  | _ => none

theorem Instruction.time_eq_some {ix : Instruction} {clock : Clock} :
    ix.time = some clock ↔ ix = .advanceClock clock := by
  cases ix with
  | advanceClock c =>
      simp only [Instruction.time, Option.some.injEq, Instruction.advanceClock.injEq]
  | _ => simp only [Instruction.time, reduceCtorEq]

namespace World

variable {mxe : Mxe} {w w' : World} {ix : Instruction}

/-- What an instruction other than a refresh leaves of an obligation's stamp. -/
def KeepsStamps (w w' : World) : Prop :=
  ∀ x o', w'.obligations x = some o' →
    (∃ o, w.obligations x = some o ∧ o'.lastUpdate = o.lastUpdate) ∨
      w.obligations x = none ∧ o'.lastUpdate.slot = 0

theorem KeepsStamps.of_eq (h : w'.obligations = w.obligations) : KeepsStamps w w' := by
  intro x o' ho'
  exact .inl ⟨o', h ▸ ho', rfl⟩

theorem KeepsStamps.of_store {x : Pubkey} {o o' : Obligation} (ho : w.obligations x = some o)
    (h : w'.obligations = store w.obligations x o') (hstamp : o'.lastUpdate = o.lastUpdate) :
    KeepsStamps w w' := by
  intro y p hp
  rw [h] at hp
  by_cases hy : y = x
  · rw [hy, store_self] at hp
    cases hp
    exact .inl ⟨o, hy ▸ ho, hstamp⟩
  · rw [store_of_ne _ _ hy] at hp
    exact .inl ⟨p, hp, rfl⟩

theorem exec_keepsStamps (h : w.exec mxe ix = .ok w') (hix : ix.refreshed = none) :
    KeepsStamps w w' := by
  cases ix with
  | refreshObligation => cases hix
  -- a new obligation bears the stamp of one that was never refreshed
  | initObligation owner market key =>
      simp only [exec, World.initObligation, bind_eq_ok, vacant_eq_ok, exists_const,
        pure_eq_ok] at h
      obtain ⟨-, -, -, -, hnew, -, -, rfl⟩ := h
      intro x o' ho'
      have ho' : store w.obligations key (.init owner market) x = some o' := ho'
      by_cases hx : x = key
      · rw [hx, store_self] at ho'
        cases ho'
        exact .inr ⟨hx ▸ hnew, rfl⟩
      · rw [store_of_ne _ _ hx] at ho'
        exact .inl ⟨o', ho', rfl⟩
  | depositCollateral a amount =>
      simp only [exec, World.depositCollateral, bind_eq_ok, pure_eq_ok, Prod.exists] at h
      obtain ⟨m, r, o, hcheck, o', hled, t, -, rfl⟩ := h
      obtain ⟨-, hk, -, -, ho⟩ := CollateralAccounts.check_ok hcheck
      exact .of_store ho rfl (Obligation.lastUpdate_deposit (Pubkey.ne_default hk)
        (Ledger.depositCollateral_ok hled))
  | privateDepositCollateral a amount encrypted =>
      simp only [exec, World.privateDepositCollateral, bind_eq_ok, pure_eq_ok, Prod.exists] at h
      obtain ⟨m, r, o, hcheck, s, -, -, -, o', hled, t, -, s', -, rfl⟩ := h
      obtain ⟨-, hk, -, -, ho⟩ := CollateralAccounts.check_ok hcheck
      exact .of_store ho rfl (Obligation.lastUpdate_deposit (Pubkey.ne_default hk)
        (Ledger.privateDepositCollateral_ok hled))
  | withdrawCollateral a amount =>
      simp only [exec, World.withdrawCollateral, bind_eq_ok, pure_eq_ok, Prod.exists] at h
      obtain ⟨m, r, o, hcheck, o', hled, t, -, rfl⟩ := h
      obtain ⟨-, -, -, -, ho⟩ := CollateralAccounts.check_ok hcheck
      exact .of_store ho rfl (Ledger.lastUpdate_withdrawCollateral hled)
  | borrow a amount =>
      simp only [exec, World.borrow, bind_eq_ok, pure_eq_ok, Prod.exists] at h
      obtain ⟨m, r, o, hcheck, r', o', hled, t, -, rfl⟩ := h
      obtain ⟨-, hk, -, -, ho⟩ := DebtAccounts.check_ok hcheck
      exact .of_store ho rfl ((Ledger.borrow_ok hled).lastUpdate (Pubkey.ne_default hk))
  | privateBorrow a amount encrypted =>
      simp only [exec, World.privateBorrow, bind_eq_ok, pure_eq_ok, Prod.exists] at h
      obtain ⟨m, r, o, hcheck, s, -, r', o', hled, t, -, s', -, rfl⟩ := h
      obtain ⟨-, hk, -, -, ho⟩ := DebtAccounts.check_ok hcheck
      exact .of_store ho rfl ((Ledger.privateBorrow_ok hled).lastUpdate (Pubkey.ne_default hk))
  | repay a amount =>
      simp only [exec, World.repay, bind_eq_ok, pure_eq_ok, Prod.exists] at h
      obtain ⟨m, r, o, hcheck, -, -, r', o', hled, t, -, rfl⟩ := h
      obtain ⟨-, -, -, -, ho⟩ := DebtAccounts.check_ok hcheck
      exact .of_store ho rfl (Ledger.lastUpdate_repay hled)
  | liquidate a amount =>
      simp only [exec, World.liquidate, bind_eq_ok, Prod.exists] at h
      obtain ⟨m, o, hcheck, s, hled, hsettle⟩ := h
      obtain ⟨-, ho, -⟩ := LiquidationAccounts.check_ok hcheck
      exact .of_store ho (settleSeizure_obligations hsettle)
        (Ledger.lastUpdate_seize (Ledger.liquidate_ok hled))
  | executePrivateLiquidation a amount =>
      simp only [exec, World.executePrivateLiquidation, bind_eq_ok, pure_eq_ok, Prod.exists] at h
      obtain ⟨m, o, hcheck, _, -, _, -, s, hled, v, hsettle, rfl⟩ := h
      obtain ⟨-, ho, -⟩ := LiquidationAccounts.check_ok hcheck
      have hv : v.obligations = store w.obligations a.obligation s.obligation :=
        settleSeizure_obligations hsettle
      exact .of_store ho hv (Ledger.lastUpdate_seize (Ledger.executePrivateLiquidation_ok hled).2)
  -- nothing else writes an obligation
  | _ =>
      apply KeepsStamps.of_eq
      repeat (obtain ⟨_, -, h⟩ := bind_eq_ok.mp h)
      cases h
      rfl

/-- A refresh stamps its obligation with the clock. -/
theorem exec_refreshed {x : Pubkey} {o' : Obligation} (h : w.exec mxe ix = .ok w')
    (hix : ix.refreshed = some x) (ho' : w'.obligations x = some o') :
    ∃ o, w.obligations x = some o ∧
      o'.lastUpdate = ⟨w.clock.slot, w.clock.unixTimestamp⟩ ∧ w'.clock = w.clock := by
  cases ix with
  | refreshObligation market key accounts =>
      cases hix
      simp only [exec, World.refreshObligation, bind_eq_ok, pure_eq_ok] at h
      obtain ⟨-, -, o, hin, o₁, hled, rfl⟩ := h
      have hstored : store w.obligations x o₁ x = some o' := ho'
      rw [store_self] at hstored
      cases hstored
      exact ⟨o, (obligationIn_ok hin).1, (Ledger.refreshed hled).lastUpdate, rfl⟩
  | _ => cases hix

/-- Every other obligation keeps its stamp, or is new. -/
theorem exec_stamp {x : Pubkey} {o' : Obligation} (h : w.exec mxe ix = .ok w')
    (hix : ix.refreshed ≠ some x) (ho' : w'.obligations x = some o') :
    (∃ o, w.obligations x = some o ∧ o'.lastUpdate = o.lastUpdate) ∨
      w.obligations x = none ∧ o'.lastUpdate.slot = 0 := by
  cases hnone : ix.refreshed with
  | none => exact exec_keepsStamps h hnone x o' ho'
  | some y =>
      cases ix with
      | refreshObligation market key accounts =>
          simp only [exec, World.refreshObligation, bind_eq_ok, pure_eq_ok] at h
          obtain ⟨-, -, o, -, o₁, -, rfl⟩ := h
          have hne : x ≠ key := fun he => hix (he ▸ rfl)
          have hstored : store w.obligations key o₁ x = some o' := ho'
          rw [store_of_ne _ _ hne] at hstored
          exact .inl ⟨o', hstored, rfl⟩
      | _ => cases hnone

/-- Only the clock moves the clock. -/
theorem exec_clock (h : w.exec mxe ix = .ok w') (hix : ix.time = none) : w'.clock = w.clock := by
  cases ix with
  | advanceClock clock => cases hix
  | liquidate a amount =>
      simp only [exec, World.liquidate, bind_eq_ok, Prod.exists] at h
      obtain ⟨_, _, -, s, -, hsettle⟩ := h
      exact settleSeizure_clock hsettle
  | executePrivateLiquidation a amount =>
      simp only [exec, World.executePrivateLiquidation, bind_eq_ok, pure_eq_ok, Prod.exists] at h
      obtain ⟨_, _, -, _, -, _, -, s, -, v, hsettle, rfl⟩ := h
      have hv : v.clock = w.clock := settleSeizure_clock hsettle
      exact hv
  | _ =>
      repeat (obtain ⟨_, -, h⟩ := bind_eq_ok.mp h)
      cases h
      rfl

/-- A decision that is taken finds its obligation refreshed in this slot. -/
theorem slot_of_decides {x : Pubkey} {ks : List Pubkey} (h : w.exec mxe ix = .ok w')
    (hix : ix.decides = some (x, ks)) :
    ∃ o, w.obligations x = some o ∧ o.lastUpdate.slot = w.clock.slot := by
  cases ix with
  | borrow a amount =>
      cases hix
      simp only [exec, World.borrow, bind_eq_ok, Prod.exists] at h
      obtain ⟨m, r, o, hcheck, r', o', hled, -⟩ := h
      obtain ⟨-, -, -, -, ho⟩ := DebtAccounts.check_ok hcheck
      exact ⟨o, ho, Ledger.slot_of_borrow hled⟩
  | withdrawCollateral a amount =>
      cases hix
      simp only [exec, World.withdrawCollateral, bind_eq_ok, Prod.exists] at h
      obtain ⟨m, r, o, hcheck, o', hled, -⟩ := h
      obtain ⟨-, -, -, -, ho⟩ := CollateralAccounts.check_ok hcheck
      exact ⟨o, ho, Ledger.slot_of_withdrawCollateral hled⟩
  | liquidate a amount =>
      cases hix
      simp only [exec, World.liquidate, bind_eq_ok, Prod.exists] at h
      obtain ⟨m, o, hcheck, s, hled, -⟩ := h
      obtain ⟨-, ho, -⟩ := LiquidationAccounts.check_ok hcheck
      exact ⟨o, ho, Ledger.slot_of_seize (Ledger.liquidate_ok hled)⟩
  | _ => cases hix

end World

/-! ## Marks and dates -/

/-- For each slot a mark of the price behind its cached value, if any price is. -/
structure PriceMarks (α : Type) where
  deposits : Fin maxDepositsCountInReserve → Option α
  borrows : Fin maxBorrowCountInReserve → Option α

/-- Publication times. -/
abbrev PriceDates := PriceMarks Int64

/-- What there is to say about the price of a reserve; a reserve without a price values nothing. -/
def ofPriced {α : Type} (reserves : Pubkey → Option Reserve) (mark : Pubkey → Reserve → Option α)
    (key : Pubkey) : Option α :=
  (reserves key).bind fun r => if r.liquidity.marketPriceSf = 0 then none else mark key r

/-- When the price at which a refresh values a slot of this reserve was published. -/
def published (reserves : Pubkey → Option Reserve) : Pubkey → Option Int64 :=
  ofPriced reserves fun _ r => some r.liquidity.priceLastUpdatedTs

namespace PriceMarks

variable {α β : Type}

def none : PriceMarks α := ⟨fun _ => .none, fun _ => .none⟩

/-- A refresh marks the slots it values: the active ones of the counted prefixes. -/
def refresh (d : PriceMarks α) (source : Pubkey → Option α) (o : Obligation) : PriceMarks α where
  deposits i :=
    if i.val < o.depositsCount.toNat ∧ o.deposits[i].isActive then
      (source o.deposits[i].depositReserve).or (d.deposits i)
    else d.deposits i
  borrows i :=
    if i.val < o.borrowsCount.toNat ∧ o.borrows[i].isActive then
      (source o.borrows[i].borrowReserve).or (d.borrows i)
    else d.borrows i

/-- Slots that change hands lose their mark with their value. -/
def carry (d : PriceMarks α) (o o' : Obligation) : PriceMarks α where
  deposits i :=
    if o'.deposits[i].depositReserve = o.deposits[i].depositReserve then d.deposits i else .none
  borrows i :=
    if o'.borrows[i].borrowReserve = o.borrows[i].borrowReserve then d.borrows i else .none

/-- Every mark behind the value of an active slot is good. -/
def All (good : α → Prop) (d : PriceMarks α) (o : Obligation) : Prop :=
  (∀ i : Fin maxDepositsCountInReserve,
    o.deposits[i].isActive = true → ∀ m ∈ d.deposits i, good m) ∧
  ∀ i : Fin maxBorrowCountInReserve, o.borrows[i].isActive = true → ∀ m ∈ d.borrows i, good m

instance decidableAll (good : α → Prop) [DecidablePred good] (d : PriceMarks α) (o : Obligation) :
    Decidable (d.All good o) :=
  -- one mark at most is looked at, never a whole type of them
  letI : ∀ t : Option α, Decidable (∀ m ∈ t, good m) := fun t => t.decidableForallMem
  inferInstanceAs (Decidable (_ ∧ _))

theorem all_none (good : α → Prop) (o : Obligation) : none.All good o :=
  ⟨fun _ _ _ hm => (Option.not_mem_none _ hm).elim,
    fun _ _ _ hm => (Option.not_mem_none _ hm).elim⟩

theorem carry_self (d : PriceMarks α) (o : Obligation) : d.carry o o = d := by
  simp only [carry, if_true]

/-- A slot that still has a mark still has its reserve. -/
theorem All.carry {good : α → Prop} {d : PriceMarks α} {o : Obligation} (h : d.All good o)
    (o' : Obligation) : (d.carry o o').All good o' := by
  refine ⟨fun i hact m hm => ?_, fun i hact m hm => ?_⟩
  · simp only [PriceMarks.carry] at hm
    split at hm
    case isTrue hkey =>
      apply h.1 i _ m hm
      rw [ObligationCollateral.isActive, ← hkey]
      exact hact
    case isFalse => exact (Option.not_mem_none _ hm).elim
  · simp only [PriceMarks.carry] at hm
    split at hm
    case isTrue hkey =>
      apply h.2 i _ m hm
      rw [ObligationLiquidity.isActive, ← hkey]
      exact hact
    case isFalse => exact (Option.not_mem_none _ hm).elim

end PriceMarks

/-- The price was published at most `maxAgeSeconds` before this time. -/
def Fresh (now ts : Int64) : Prop := now.toInt - maxAgeSeconds.toInt ≤ ts.toInt

instance decidableFresh (now ts : Int64) : Decidable (Fresh now ts) :=
  inferInstanceAs (Decidable (_ ≤ _))

instance decidablePredFresh (now : Int64) : DecidablePred (Fresh now) := decidableFresh now

/-- Every price behind the value of an active slot is fresh. -/
def PriceMarks.FreshAt (d : PriceDates) (now : Int64) (o : Obligation) : Prop :=
  d.All (Fresh now) o

instance decidableFreshAt (d : PriceDates) (now : Int64) (o : Obligation) :
    Decidable (d.FreshAt now o) :=
  inferInstanceAs (Decidable (d.All (Fresh now) o))

namespace Ledger

variable {reserves : Pubkey → Option Reserve} {accounts : List Pubkey} {clock : Clock}
  {o o' : Obligation}

variable {α : Type} {mark : Pubkey → Reserve → Option α} {key : Pubkey} {r : Reserve}

theorem ofPriced_eq (hr : reserves key = some r) (hprice : r.liquidity.marketPriceSf ≠ 0) :
    ofPriced reserves mark key = mark key r := by
  simp only [ofPriced, hr, Option.bind_some, if_neg hprice]

theorem ofPriced_unpriced (hr : reserves key = some r) (hprice : r.liquidity.marketPriceSf = 0) :
    ofPriced reserves mark key = none := by
  simp only [ofPriced, hr, Option.bind_some, if_pos hprice]

/-- What a refresh marks is the price it values the deposit at; a deposit without one keeps its
value. -/
theorem deposit_marked (h : refreshObligation reserves accounts clock o = .ok o')
    (mark : Pubkey → Reserve → Option α) (i : Fin maxDepositsCountInReserve) :
    (∃ r, reserves o.deposits[i].depositReserve = some r ∧
      (PriceMarks.none.refresh (ofPriced reserves mark) o).deposits i =
        mark o.deposits[i].depositReserve r ∧
      o'.deposits[i].marketValueSf.toNat =
        r.quote.depositValue o.deposits[i].depositedAmount.toNat) ∨
    (PriceMarks.none.refresh (ofPriced reserves mark) o).deposits i = none ∧
      o'.deposits[i].marketValueSf = o.deposits[i].marketValueSf := by
  have href := (refreshed h).deposits i
  simp only [PriceMarks.refresh, PriceMarks.none, Option.or_none]
  by_cases hi : i.val < o.depositsCount.toNat
  · generalize o'.deposits[i] = c at href ⊢
    cases href.1 hi with
    | free hfree =>
        refine .inr ⟨if_neg ?_, rfl⟩
        rintro ⟨-, hact⟩
        exact hfree (depositLayout_live.mpr hact)
    | unpriced hr hzero =>
        refine .inr ⟨?_, rfl⟩
        rw [ofPriced_unpriced hr hzero, ite_self]
    | priced hl hr hpos hmv =>
        refine .inl ⟨_, hr, ?_, hmv⟩
        rw [if_pos ⟨hi, depositLayout_live.mp hl⟩, ofPriced_eq hr hpos]
  · refine .inr ⟨if_neg fun hcon => hi hcon.1, ?_⟩
    rw [href.2 (Nat.le_of_not_lt hi)]

/-- The same for a debt. -/
theorem borrow_marked (h : refreshObligation reserves accounts clock o = .ok o')
    (mark : Pubkey → Reserve → Option α) (i : Fin maxBorrowCountInReserve) :
    (∃ r, reserves o.borrows[i].borrowReserve = some r ∧
      (PriceMarks.none.refresh (ofPriced reserves mark) o).borrows i =
        mark o.borrows[i].borrowReserve r ∧
      o'.borrows[i].marketValueSf.toNat =
        r.quote.debtValue o'.borrows[i].borrowedAmountSf.toNat) ∨
    (PriceMarks.none.refresh (ofPriced reserves mark) o).borrows i = none ∧
      o'.borrows[i].marketValueSf = o.borrows[i].marketValueSf := by
  have href := (refreshed h).borrows i
  simp only [PriceMarks.refresh, PriceMarks.none, Option.or_none]
  by_cases hi : i.val < o.borrowsCount.toNat
  · generalize o'.borrows[i] = b at href ⊢
    cases href.1 hi with
    | free hfree =>
        refine .inr ⟨if_neg ?_, rfl⟩
        rintro ⟨-, hact⟩
        exact hfree (borrowLayout_live.mpr hact)
    | unpriced hr hzero =>
        refine .inr ⟨?_, rfl⟩
        rw [ofPriced_unpriced hr hzero, ite_self]
    | priced hl hr hpos hrate hd hmv =>
        refine .inl ⟨_, hr, ?_, hmv⟩
        rw [if_pos ⟨hi, borrowLayout_live.mp hl⟩, ofPriced_eq hr hpos]
  · refine .inr ⟨if_neg fun hcon => hi hcon.1, ?_⟩
    rw [href.2 (Nat.le_of_not_lt hi)]

end Ledger

/-- The marks of every obligation after an instruction: those of a successful refresh are taken from
`source`, the others stay with their slots. -/
def marksAfter {α : Type} (mxe : Mxe) (w : World) (ix : Instruction) (source : Pubkey → Option α)
    (marks : Pubkey → PriceMarks α) (x : Pubkey) : PriceMarks α :=
  match w.obligations x, (w.tx mxe ix).obligations x with
  | some o, some o' =>
      if ix.refreshed = some x ∧ (w.exec mxe ix).isOk = true then
        ((marks x).refresh source o).carry o o'
      else (marks x).carry o o'
  | _, _ => .none

section MarksAfter

variable {α : Type} {mxe : Mxe} {w w' : World} {ix : Instruction} {source : Pubkey → Option α}
  {marks : Pubkey → PriceMarks α} {x : Pubkey} {o o' : Obligation}

theorem marksAfter_error {e : Fault} (h : w.exec mxe ix = .error e)
    (ho : w.obligations x = some o) : marksAfter mxe w ix source marks x = marks x := by
  have hw : w.tx mxe ix = w := by rw [World.tx, attemptStep, h]
  simp only [marksAfter, hw, ho, h, Except.isOk, Except.toBool, Bool.false_eq_true, and_false,
    if_false, PriceMarks.carry_self]

theorem marksAfter_new (ho : w.obligations x = none) :
    marksAfter mxe w ix source marks x = .none := by
  simp only [marksAfter, ho]

theorem marksAfter_kept (hix : ix.refreshed ≠ some x) (ho : w.obligations x = some o)
    (ho' : (w.tx mxe ix).obligations x = some o') :
    marksAfter mxe w ix source marks x = (marks x).carry o o' := by
  simp only [marksAfter, ho, ho', hix, false_and, if_false]

theorem marksAfter_refreshed (hix : ix.refreshed = some x) (h : w.exec mxe ix = .ok w')
    (ho : w.obligations x = some o) (ho' : (w.tx mxe ix).obligations x = some o') :
    marksAfter mxe w ix source marks x = ((marks x).refresh source o).carry o o' := by
  simp only [marksAfter, ho, ho', hix, h, Except.isOk, Except.toBool, and_self, if_true]

end MarksAfter

/-- A world with the dates of all cached values. -/
structure Dated where
  world : World
  dates : Pubkey → PriceDates

namespace Dated

def genesis (clock : Clock) : Dated := ⟨.genesis clock, fun _ => .none⟩

/-- A transaction, dated. -/
def tx (mxe : Mxe) (d : Dated) (ix : Instruction) : Dated where
  world := d.world.tx mxe ix
  dates := marksAfter mxe d.world ix (published d.world.reserves) d.dates

theorem dates_tx (mxe : Mxe) (d : Dated) (ix : Instruction) :
    (d.tx mxe ix).dates = marksAfter mxe d.world ix (published d.world.reserves) d.dates := rfl

/-- Dating changes nothing. -/
theorem world_foldl (mxe : Mxe) (ixs : List Instruction) (d : Dated) :
    (ixs.foldl (tx mxe) d).world = ixs.foldl (World.tx mxe) d.world := by
  induction ixs generalizing d with
  | nil => rfl
  | cons ix ixs ih => exact ih _

/-! ## Decisions on fresh prices -/

/-- A decision that is taken is taken at fresh prices: those behind the cached values and those read
on the spot. -/
def FreshDecision (mxe : Mxe) (d : Dated) (ix : Instruction) : Prop :=
  ∀ x ks, ix.decides = some (x, ks) → (d.world.exec mxe ix).isOk = true →
    (∀ k ∈ ks, ∀ r, d.world.reserves k = some r →
      Fresh d.world.clock.unixTimestamp r.liquidity.priceLastUpdatedTs) ∧
    ∀ o, d.world.obligations x = some o → (d.dates x).FreshAt d.world.clock.unixTimestamp o

/-- The reserves whose price a decision reads have a fresh one. -/
def FreshReserves (d : Dated) (ix : Instruction) : Prop :=
  ∀ p ∈ ix.decides, ∀ k ∈ p.2, ∀ r ∈ d.world.reserves k,
    Fresh d.world.clock.unixTimestamp r.liquidity.priceLastUpdatedTs

/-- A refresh values every active slot at a fresh price, or skips it and leaves it a fresh one. -/
def FreshRefresh (d : Dated) (ix : Instruction) : Prop :=
  ∀ x ∈ ix.refreshed, ∀ o ∈ d.world.obligations x,
    ((d.dates x).refresh (published d.world.reserves) o).FreshAt d.world.clock.unixTimestamp o

/-- Time that passes within a slot makes no price stale that an obligation refreshed in this slot
stands on. -/
def FreshClock (d : Dated) (ix : Instruction) : Prop :=
  ∀ clock ∈ ix.time, clock.slot = d.world.clock.slot →
    ∀ x o, d.world.obligations x = some o → o.lastUpdate.slot = clock.slot →
      (d.dates x).FreshAt clock.unixTimestamp o

/-- A successful step that keeps decisions fresh. -/
def KeepsFresh (mxe : Mxe) (d : Dated) (ix : Instruction) : Prop :=
  (d.world.exec mxe ix).isOk = true → d.FreshReserves ix ∧ d.FreshRefresh ix ∧ d.FreshClock ix

/-- An obligation refreshed in this slot stands on fresh prices. -/
def Current (d : Dated) : Prop :=
  ∀ x o, d.world.obligations x = some o →
    o.lastUpdate.slot.toNat ≤ d.world.clock.slot.toNat ∧
      (o.lastUpdate.slot = d.world.clock.slot →
        (d.dates x).FreshAt d.world.clock.unixTimestamp o)

variable {mxe : Mxe} {d : Dated} {ix : Instruction} {w' : World}

/-- An obligation that a successful step does not refresh stands on no other prices after it. -/
theorem Current.carried (hcur : d.Current) (h : d.world.exec mxe ix = .ok w') {x : Pubkey}
    {o' : Obligation} (hix : ix.refreshed ≠ some x) (ho' : w'.obligations x = some o') :
    o'.lastUpdate.slot.toNat ≤ d.world.clock.slot.toNat ∧ ∀ now,
      (∀ o, d.world.obligations x = some o → o'.lastUpdate = o.lastUpdate →
        (d.dates x).FreshAt now o) → ((d.tx mxe ix).dates x).FreshAt now o' := by
  have hw : d.world.tx mxe ix = w' := attemptStep_ok h
  rcases World.exec_stamp h hix ho' with ⟨o, ho, hst⟩ | ⟨hnew, hst⟩
  · rw [dates_tx, marksAfter_kept hix ho (hw ▸ ho')]
    refine ⟨?_, fun now hfresh => (hfresh o ho hst).carry o'⟩
    rw [hst]
    exact (hcur x o ho).1
  · rw [dates_tx, marksAfter_new hnew]
    refine ⟨?_, fun _ _ => PriceMarks.all_none _ _⟩
    rw [hst]
    exact Nat.zero_le _

/-- Currency survives every step that keeps decisions fresh. -/
theorem current_tx (hcur : d.Current) (hkeeps : d.KeepsFresh mxe ix) : (d.tx mxe ix).Current := by
  cases hex : d.world.exec mxe ix with
  | error e =>
      intro x o ho
      have hw : (d.tx mxe ix).world = d.world := by rw [tx, World.tx, attemptStep, hex]
      rw [hw] at ho ⊢
      rw [dates_tx, marksAfter_error hex ho]
      exact hcur x o ho
  | ok w' =>
      have hw : (d.tx mxe ix).world = w' := attemptStep_ok hex
      obtain ⟨-, hrefresh, htime⟩ := hkeeps (by rw [hex]; rfl)
      intro x o' ho'
      rw [hw] at ho' ⊢
      by_cases hix : ix.refreshed = some x
      · -- the refresh stamps this obligation and dates its slots
        obtain ⟨o, ho, hst, hclock⟩ := World.exec_refreshed hex hix ho'
        have hnew : (d.world.tx mxe ix).obligations x = some o' := by
          rw [← ho', ← hw]
          rfl
        rw [hst, hclock, dates_tx, marksAfter_refreshed hix hex ho hnew]
        exact ⟨le_refl _, fun _ => (hrefresh x hix o ho).carry o'⟩
      · obtain ⟨hle, hdates⟩ := hcur.carried hex hix ho'
        cases htick : ix.time with
        | some clock =>
            -- an obligation of the new slot was refreshed in it already
            obtain rfl := Instruction.time_eq_some.mp htick
            simp only [World.exec, World.advanceClock, bind_eq_ok, require_eq_ok, exists_const,
              pure_eq_ok] at hex
            obtain ⟨hslots, -, rfl⟩ := hex
            have hslots' : d.world.clock.slot.toNat ≤ clock.slot.toNat := BitVec.le_def.mp hslots
            refine ⟨hle.trans hslots', fun hslot => hdates _ fun o ho hst => ?_⟩
            have hsame : clock.slot = d.world.clock.slot := by
              have hge : o'.lastUpdate.slot = clock.slot := hslot
              rw [hge] at hle
              exact BitVec.eq_of_toNat_eq (Nat.le_antisymm hle hslots')
            exact htime clock rfl hsame x o ho (hst ▸ hslot)
        | none =>
            rw [World.exec_clock hex htick]
            exact ⟨hle, fun hslot => hdates _ fun o ho hst => (hcur x o ho).2 (hst ▸ hslot)⟩

/-- A decision taken in a current world is taken at fresh prices. -/
theorem freshDecision_of_current (hcur : d.Current) (hkeeps : d.KeepsFresh mxe ix) :
    d.FreshDecision mxe ix := by
  intro x ks hix hok
  obtain ⟨hinline, -, -⟩ := hkeeps hok
  refine ⟨fun k hk r hr => hinline (x, ks) hix k hk r hr, fun o ho => ?_⟩
  cases hex : d.world.exec mxe ix with
  | error e =>
      rw [hex] at hok
      cases hok
  | ok w' =>
      -- the instruction has compared the obligation's stamp with the slot
      obtain ⟨o₁, ho₁, hslot⟩ := World.slot_of_decides hex hix
      rw [ho] at ho₁
      cases ho₁
      exact (hcur x o ho).2 hslot

end Dated

end VeilVault
