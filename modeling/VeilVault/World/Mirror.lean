/-
# VeilVault.World.Mirror — the encrypted position beside the public one.

A private deposit or borrow books its amount twice: in the public obligation, in atomic units, and
through a circuit in the encrypted position, in whole tokens.  What takes amounts out again (a
repayment, a withdrawal, a liquidation of either kind) writes the public obligation only; the
circuits that subtract exist, and no instruction queues them.  And the encrypted position adds the
floors of the amounts, not the floor of their sum.

So the encrypted position is the floor of the public one as long as deposits and borrows carry
nothing and only fractions of a token leave (`mirrors_iff`).
-/
import VeilVault.Kit.WholeUnits
import VeilVault.Ledger.Units
import VeilVault.Private.Settling
import VeilVault.World.Accounts

namespace VeilVault

open Kit Kit.Outcome

/-! ## A client -/

/-- A user of one market, with the mints of one collateral and one borrow reserve, and the decimals
of the cToken mint and of the borrowed mint. -/
structure Client where
  market : Pubkey
  user : Pubkey
  collateralMint : Pubkey
  borrowMint : Pubkey
  collateralDecimals : U8
  borrowDecimals : U8

namespace Client

variable (c : Client)

def obligation : Pubkey := .obligation c.market c.user

def privateObligation : Pubkey := .privateObligation c.market c.user

def collateralReserve : Pubkey := .reserve c.market c.collateralMint

def borrowReserve : Pubkey := .reserve c.market c.borrowMint

/-- One whole cToken, in atomic units. -/
def collateralUnit : ℕ := 10 ^ c.collateralDecimals.toNat

/-- One whole borrowed token. -/
def borrowUnit : ℕ := 10 ^ c.borrowDecimals.toNat

/-- The position holds the whole tokens of the public obligation. -/
structure Reflects (o : Obligation) (p : PrivatePosition) : Prop where
  collateral : p.collateralTokens.toNat = o.deposited c.collateralReserve / c.collateralUnit
  debt : p.borrowTokens.toNat = o.owed c.borrowReserve / c.borrowUnit

/-- How the client calls: deposits and borrows are private, on the two reserves, encrypt the whole
tokens of the amount, and wait for the last update's callback, which arrives. -/
def Follows (mxe : Mxe) (w : World) : Instruction → Prop
  | .depositCollateral a _ => a.obligation ≠ c.obligation
  | .borrow a _ => a.obligation ≠ c.obligation
  | .privateDepositCollateral a amount encrypted =>
      a.privateObligation = c.privateObligation → a.reserve = c.collateralReserve ∧
        (mxe.openShared encrypted).toNat = amount.toNat / c.collateralUnit ∧
        (w.account c.privateObligation).updates = 0
  | .privateBorrow a amount encrypted =>
      a.privateObligation = c.privateObligation → a.reserve = c.borrowReserve ∧
        (mxe.openShared encrypted).toNat = amount.toNat / c.borrowUnit ∧
        (w.account c.privateObligation).updates = 0
  | .abortComputation key executed i =>
      key = c.privateObligation → (PrivateEvent.abort executed i).KeepsUpdates (w.account key)
  | _ => True

/-- The borrow reserve's index does not move. -/
def ZeroInterest (w w' : World) : Prop :=
  ∀ r ∈ w.reserves c.borrowReserve,
    indexAt w'.reserves c.borrowReserve = some r.liquidity.cumulativeBorrowRateSf

theorem ZeroInterest.eq_of_some {c : Client} {w w' : World} {r : Reserve}
    (h : c.ZeroInterest w w') (hr : w.reserves c.borrowReserve = some r) :
    indexAt w'.reserves c.borrowReserve = indexAt w.reserves c.borrowReserve := by
  rw [indexAt_eq_some hr]
  exact h r hr

instance decidableZeroInterest (w w' : World) : Decidable (c.ZeroInterest w w') :=
  inferInstanceAs (Decidable (∀ r ∈ w.reserves c.borrowReserve, _ = some _))

/-! ## What an instruction moves -/

/-- The amount, if it is cTokens of the client's collateral. -/
def collateral (obligation reserve : Pubkey) (amount : ℕ) : ℕ :=
  if obligation = c.obligation ∧ reserve = c.collateralReserve then amount else 0

/-- The amount, if it is the client's debt. -/
def debt (obligation reserve : Pubkey) (amount : ℕ) : ℕ :=
  if obligation = c.obligation ∧ reserve = c.borrowReserve then amount else 0

end Client

/-- Amounts in and out of the client's obligation. -/
structure Flow where
  deposited : ℕ := 0
  withdrawn : ℕ := 0
  borrowed : ℕ := 0
  repaid : ℕ := 0

namespace Client

variable (c : Client)

def seized (w : World) (o : Obligation) (a : LiquidationAccounts) (amount : U64) : Flow :=
  match Ledger.takes w.clock.slot w.reserves o a.repayReserve a.withdrawReserve amount with
  | some (repaid, seized) =>
      { withdrawn := c.collateral a.obligation a.withdrawReserve seized
        repaid := c.debt a.obligation a.repayReserve repaid }
  | none => {}

/-- What an accepted instruction moves. -/
def flow (w : World) (o : Obligation) : Instruction → Flow
  | .depositCollateral a amount =>
      { deposited := c.collateral a.obligation a.reserve amount.toNat }
  | .privateDepositCollateral a amount _ =>
      { deposited := c.collateral a.obligation a.reserve amount.toNat }
  | .withdrawCollateral a amount =>
      { withdrawn := c.collateral a.obligation a.reserve amount.toNat }
  | .borrow a amount => { borrowed := c.debt a.obligation a.reserve amount.toNat }
  | .privateBorrow a amount _ => { borrowed := c.debt a.obligation a.reserve amount.toNat }
  | .repay a amount => { repaid := c.debt a.obligation a.reserve amount.toNat }
  | .liquidate a amount => c.seized w o a amount
  | .executePrivateLiquidation a amount => c.seized w o a.toLiquidationAccounts amount
  | _ => {}

/-- No carry, no wrap, and only fractions of a token leave. -/
def KeepsTokens (mxe : Mxe) (w : World) (ix : Instruction) : Prop :=
  (w.exec mxe ix).isOk = true → ∀ o ∈ w.obligations c.obligation,
    let f := c.flow w o ix
    KeepsFloor c.collateralUnit (2 ^ 64) (o.deposited c.collateralReserve) f.deposited
        f.withdrawn ∧
      KeepsFloor c.borrowUnit (2 ^ 64) (o.owed c.borrowReserve) f.borrowed f.repaid

instance decidableKeepsTokens (mxe : Mxe) (w : World) (ix : Instruction) :
    Decidable (c.KeepsTokens mxe w ix) :=
  inferInstanceAs (Decidable (_ → ∀ o ∈ w.obligations c.obligation, _ ∧ _))

variable {c} {y k : Pubkey} {n : ℕ}

theorem collateralReserve_ne_default : c.collateralReserve ≠ default := by
  intro h
  cases h

theorem borrowReserve_ne_default : c.borrowReserve ≠ default := by
  intro h
  cases h

theorem collateral_own (hy : y = c.obligation) :
    c.collateral y k n = if c.collateralReserve = k then n else 0 := by
  simp only [collateral, hy, true_and, eq_comm (a := k)]

theorem debt_own (hy : y = c.obligation) :
    c.debt y k n = if c.borrowReserve = k then n else 0 := by
  simp only [debt, hy, true_and, eq_comm (a := k)]

theorem collateral_other (hy : y ≠ c.obligation) : c.collateral y k n = 0 :=
  if_neg fun h => hy h.1

theorem debt_other (hy : y ≠ c.obligation) : c.debt y k n = 0 :=
  if_neg fun h => hy h.1

theorem seized_of_takes {w : World} {o : Obligation} {a : LiquidationAccounts} {amount : U64}
    {repaid seized : ℕ} (h : Ledger.takes w.clock.slot w.reserves o a.repayReserve
      a.withdrawReserve amount = some (repaid, seized)) :
    c.seized w o a amount =
      { withdrawn := c.collateral a.obligation a.withdrawReserve seized
        repaid := c.debt a.obligation a.repayReserve repaid } := by
  rw [Client.seized, h]

theorem seized_adds_nothing {w : World} {o : Obligation} {a : LiquidationAccounts}
    {amount : U64} :
    (c.seized w o a amount).deposited = 0 ∧ (c.seized w o a amount).borrowed = 0 := by
  unfold seized
  split <;> exact ⟨rfl, rfl⟩

/-- No instruction both adds and removes. -/
theorem flow_one_way (w : World) (o : Obligation) (ix : Instruction) :
    ((c.flow w o ix).deposited = 0 ∨ (c.flow w o ix).withdrawn = 0) ∧
      ((c.flow w o ix).borrowed = 0 ∨ (c.flow w o ix).repaid = 0) := by
  cases ix with
  | depositCollateral | privateDepositCollateral => exact ⟨.inr rfl, .inl rfl⟩
  | borrow | privateBorrow => exact ⟨.inl rfl, .inr rfl⟩
  | liquidate | executePrivateLiquidation =>
      exact ⟨.inl seized_adds_nothing.1, .inl seized_adds_nothing.2⟩
  | _ => exact ⟨.inl rfl, .inl rfl⟩

end Client

/-! ## The public obligation -/

namespace World

variable {mxe : Mxe} {w w' : World} {ix : Instruction} {c : Client} {o : Obligation} {f : Flow}

/-- The client's obligation after a flow, with its debt at the index it had. -/
structure Moved (c : Client) (w w' : World) (o : Obligation) (f : Flow) (o' : Obligation) :
    Prop where
  found : w'.obligations c.obligation = some o'
  deposited : o'.deposited c.collateralReserve + f.withdrawn =
    o.deposited c.collateralReserve + f.deposited
  debts : o.Moves o' c.borrowReserve (indexAt w.reserves c.borrowReserve) f.borrowed f.repaid

section Moved

variable {y k : Pubkey} {o₁ o₁' : Obligation} {amount : U64}
  (ho : w.obligations c.obligation = some o) (ho₁ : w.obligations y = some o₁)
  (hat : o.StandsAt c.borrowReserve (indexAt w.reserves c.borrowReserve))
include ho hat

theorem moved_of_eq (h : w'.obligations = w.obligations) : ∃ o', Moved c w w' o {} o' :=
  ⟨o, h ▸ ho, rfl, hat.moves_self⟩

include ho₁

/-- An instruction writes one obligation: the client's, or another one. -/
theorem moved_of_store (hw' : w'.obligations = store w.obligations y o₁')
    (hown : y = c.obligation → o₁ = o → Moved c w w' o f o₁')
    (hother : y ≠ c.obligation → f = {}) : ∃ o', Moved c w w' o f o' := by
  by_cases hy : y = c.obligation
  · rw [hy, ho] at ho₁
    exact ⟨o₁', hown hy (Option.some.inj ho₁).symm⟩
  · rw [hother hy]
    refine ⟨o, ?_, rfl, hat.moves_self⟩
    rw [hw', store_of_ne _ _ (Ne.symm hy)]
    exact ho

theorem moved_deposit (hk : k ≠ default) (hd : (o₁.deposit k amount).commit = .ok o₁')
    (hw' : w'.obligations = store w.obligations y o₁') :
    ∃ o', Moved c w w' o { deposited := c.collateral y k amount.toNat } o' := by
  apply moved_of_store ho ho₁ hat hw'
  · rintro hy rfl
    refine ⟨?_, ?_, hat.deposit hk hd⟩
    · rw [hw', hy, store_self]
    · rw [Client.collateral_own hy]
      show o₁'.deposited _ + 0 = _
      rw [Nat.add_zero]
      exact Obligation.deposited_deposit hk hd Client.collateralReserve_ne_default
  · intro hy
    rw [Client.collateral_other hy]

theorem moved_withdrawCollateral {market : LendingMarket}
    (hled : Ledger.withdrawCollateral market w.clock k o₁ amount = .ok o₁')
    (hw' : w'.obligations = store w.obligations y o₁') :
    ∃ o', Moved c w w' o { withdrawn := c.collateral y k amount.toNat } o' := by
  apply moved_of_store ho ho₁ hat hw'
  · rintro hy rfl
    refine ⟨?_, ?_, Ledger.moves_withdrawCollateral hled hat⟩
    · rw [hw', hy, store_self]
    · rw [Client.collateral_own hy]
      show _ = o₁.deposited _ + 0
      rw [Nat.add_zero]
      exact (Ledger.frame_withdrawCollateral hled).2 _ Client.collateralReserve_ne_default
  · intro hy
    rw [Client.collateral_other hy]

theorem moved_borrow {r r' : Reserve} (hzero : c.ZeroInterest w w') (hk : k ≠ default)
    (hr : w.reserves k = some r) (hr' : w'.reserves k = some r')
    (hb : Ledger.Borrows w.clock k r o₁ amount r' o₁')
    (hw' : w'.obligations = store w.obligations y o₁') :
    ∃ o', Moved c w w' o { borrowed := c.debt y k amount.toNat } o' := by
  apply moved_of_store ho ho₁ hat hw'
  · rintro hy rfl
    refine ⟨?_, ?_, ?_⟩
    · rw [hw', hy, store_self]
    · show o₁'.deposited _ + 0 = o₁.deposited _ + 0
      rw [Obligation.deposited_congr (hb.frame hk).2]
    · rw [Client.debt_own hy]
      refine hb.moves hat hk Client.borrowReserve_ne_default fun hkey => ?_
      rw [← indexAt_eq_some hr', hkey]
      exact hzero.eq_of_some (hkey ▸ hr)
  · intro hy
    rw [Client.debt_other hy]

theorem moved_repay {r r' : Reserve} (hzero : c.ZeroInterest w w')
    (hr : w.reserves k = some r) (hr' : w'.reserves k = some r')
    (hled : Ledger.repay w.clock k r o₁ amount = .ok (r', o₁'))
    (hw' : w'.obligations = store w.obligations y o₁') :
    ∃ o', Moved c w w' o { repaid := c.debt y k amount.toNat } o' := by
  apply moved_of_store ho ho₁ hat hw'
  · rintro hy rfl
    refine ⟨?_, ?_, ?_⟩
    · rw [hw', hy, store_self]
    · show o₁'.deposited _ + 0 = o₁.deposited _ + 0
      rw [Obligation.deposited_congr (Ledger.frame_repay hled).2]
    · rw [Client.debt_own hy]
      refine Ledger.moves_repay hled hat Client.borrowReserve_ne_default fun hkey => ?_
      rw [← indexAt_eq_some hr', hkey]
      exact hzero.eq_of_some (hkey ▸ hr)
  · intro hy
    rw [Client.debt_other hy]

/-- Either liquidation takes what its inputs determine. -/
theorem moved_seize {gate : Obligation → Result Unit} {a : LiquidationAccounts}
    {s : Ledger.Seizure} (hzero : c.ZeroInterest w w') (hy : y = a.obligation)
    (hled : Ledger.seize gate w.clock a.repayReserve a.withdrawReserve w.reserves o₁ amount =
      .ok s)
    (hreserves : w'.reserves = s.reserves)
    (hw' : w'.obligations = store w.obligations y s.obligation) :
    ∃ o', Moved c w w' o (c.seized w o a amount) o' := by
  obtain ⟨r, r₁, q, q₁, i, j, o₂, hs⟩ := Ledger.seize_parts hled
  apply moved_of_store ho ho₁ hat hw'
  · rintro hown rfl
    rw [Client.seized_of_takes hs.takes]
    refine ⟨?_, ?_, ?_⟩
    · rw [hw', hown, store_self]
    · rw [Client.collateral_own (hy ▸ hown)]
      show _ = o₁.deposited _ + 0
      rw [Nat.add_zero]
      exact (Ledger.frame_seize hled).2 _ Client.collateralReserve_ne_default
    · rw [Client.debt_own (hy ▸ hown)]
      refine hs.moves hat Client.borrowReserve_ne_default fun hkey => ?_
      rw [← hkey]
      apply hs.rate_eq
      rw [← hreserves, hkey]
      exact hzero.eq_of_some (hkey ▸ hs.repayReserve)
  · intro hother
    rw [Client.seized]
    split
    · rw [Client.collateral_other (hy ▸ hother), Client.debt_other (hy ▸ hother)]
    · rfl

theorem moved_refresh {accounts : List Pubkey}
    (hled : Ledger.refreshObligation w.reserves accounts w.clock o₁ = .ok o₁')
    (hw' : w'.obligations = store w.obligations y o₁') : ∃ o', Moved c w w' o {} o' := by
  apply moved_of_store ho ho₁ hat hw'
  · rintro hy rfl
    refine ⟨?_, ?_, Ledger.moves_refreshObligation hled hat⟩
    · rw [hw', hy, store_self]
    · show o₁'.deposited _ + 0 = o₁.deposited _ + 0
      rw [(Ledger.frame_refreshObligation hled).2 c.collateralReserve]
  · exact fun _ => rfl

end Moved

/-- Every accepted instruction moves what `flow` says. -/
theorem exec_moved (ho : w.obligations c.obligation = some o)
    (hat : o.StandsAt c.borrowReserve (indexAt w.reserves c.borrowReserve))
    (h : w.exec mxe ix = .ok w') (hzero : c.ZeroInterest w w') :
    ∃ o', Moved c w w' o (c.flow w o ix) o' := by
  cases ix with
  -- a new obligation is not the client's, which exists already
  | initObligation owner market key =>
      simp only [exec, World.initObligation, bind_eq_ok, vacant_eq_ok, exists_const,
        pure_eq_ok] at h
      obtain ⟨-, -, -, -, hnew, -, -, rfl⟩ := h
      refine ⟨o, ?_, rfl, hat.moves_self⟩
      show store w.obligations key _ c.obligation = some o
      rw [store_of_ne _ _ fun he => by rw [he, hnew] at ho; cases ho]
      exact ho
  | refreshObligation market key accounts =>
      simp only [exec, World.refreshObligation, bind_eq_ok, pure_eq_ok] at h
      obtain ⟨-, -, o₁, hin, o₁', hled, rfl⟩ := h
      exact moved_refresh ho (obligationIn_ok hin).1 hat hled rfl
  | depositCollateral a amount =>
      simp only [exec, World.depositCollateral, bind_eq_ok, pure_eq_ok, Prod.exists] at h
      obtain ⟨m, r, o₁, hcheck, o₁', hled, t, -, rfl⟩ := h
      obtain ⟨-, hk, -, -, ho₁⟩ := CollateralAccounts.check_ok hcheck
      exact moved_deposit ho ho₁ hat (Pubkey.ne_default hk) (Ledger.depositCollateral_ok hled) rfl
  | privateDepositCollateral a amount encrypted =>
      simp only [exec, World.privateDepositCollateral, bind_eq_ok, pure_eq_ok, Prod.exists] at h
      obtain ⟨m, r, o₁, hcheck, s, -, -, -, o₁', hled, t, -, s', -, rfl⟩ := h
      obtain ⟨-, hk, -, -, ho₁⟩ := CollateralAccounts.check_ok hcheck
      exact moved_deposit ho ho₁ hat (Pubkey.ne_default hk)
        (Ledger.privateDepositCollateral_ok hled) rfl
  | withdrawCollateral a amount =>
      simp only [exec, World.withdrawCollateral, bind_eq_ok, pure_eq_ok, Prod.exists] at h
      obtain ⟨m, r, o₁, hcheck, o₁', hled, t, -, rfl⟩ := h
      obtain ⟨-, -, -, -, ho₁⟩ := CollateralAccounts.check_ok hcheck
      exact moved_withdrawCollateral ho ho₁ hat hled rfl
  | borrow a amount =>
      simp only [exec, World.borrow, bind_eq_ok, pure_eq_ok, Prod.exists] at h
      obtain ⟨m, r, o₁, hcheck, r', o₁', hled, t, -, rfl⟩ := h
      obtain ⟨-, hk, hr, -, ho₁⟩ := DebtAccounts.check_ok hcheck
      exact moved_borrow ho ho₁ hat hzero (Pubkey.ne_default hk) hr (store_self _ _ _)
        (Ledger.borrow_ok hled) rfl
  | privateBorrow a amount encrypted =>
      simp only [exec, World.privateBorrow, bind_eq_ok, pure_eq_ok, Prod.exists] at h
      obtain ⟨m, r, o₁, hcheck, s, -, r', o₁', hled, t, -, s', -, rfl⟩ := h
      obtain ⟨-, hk, hr, -, ho₁⟩ := DebtAccounts.check_ok hcheck
      exact moved_borrow ho ho₁ hat hzero (Pubkey.ne_default hk) hr (store_self _ _ _)
        (Ledger.privateBorrow_ok hled) rfl
  | repay a amount =>
      simp only [exec, World.repay, bind_eq_ok, pure_eq_ok, Prod.exists] at h
      obtain ⟨m, r, o₁, hcheck, -, -, r', o₁', hled, t, -, rfl⟩ := h
      obtain ⟨-, -, hr, -, ho₁⟩ := DebtAccounts.check_ok hcheck
      exact moved_repay ho ho₁ hat hzero hr (store_self _ _ _) hled rfl
  -- both liquidations settle one seizure
  | liquidate a amount =>
      simp only [exec, World.liquidate, bind_eq_ok, Prod.exists] at h
      obtain ⟨m, o₁, hcheck, s, hled, hsettle⟩ := h
      obtain ⟨-, ho₁, -⟩ := LiquidationAccounts.check_ok hcheck
      exact moved_seize ho ho₁ hat hzero rfl (Ledger.liquidate_ok hled)
        (settleSeizure_reserves hsettle) (settleSeizure_obligations hsettle)
  | executePrivateLiquidation a amount =>
      simp only [exec, World.executePrivateLiquidation, bind_eq_ok, pure_eq_ok, Prod.exists] at h
      obtain ⟨m, o₁, hcheck, _, -, _, -, s, hled, v, hsettle, rfl⟩ := h
      obtain ⟨-, ho₁, -⟩ := LiquidationAccounts.check_ok hcheck
      have hreserves : v.reserves = s.reserves := settleSeizure_reserves hsettle
      have hv : v.obligations = store w.obligations a.obligation s.obligation :=
        settleSeizure_obligations hsettle
      exact moved_seize ho ho₁ hat hzero rfl (Ledger.executePrivateLiquidation_ok hled).2
        hreserves hv
  -- nothing else writes an obligation or a reserve's index
  | _ =>
      apply moved_of_eq ho hat
      repeat (obtain ⟨_, -, h⟩ := bind_eq_ok.mp h)
      cases h
      rfl

/-! ## The encrypted position -/

/-- The whole tokens of what came in are added to the position. -/
structure Credits (c : Client) (p : PrivatePosition) (f : Flow) (p' : PrivatePosition) : Prop where
  collateral : p'.collateralTokens.toNat =
    (p.collateralTokens.toNat + f.deposited / c.collateralUnit) % 2 ^ 64
  debt : p'.borrowTokens.toNat = (p.borrowTokens.toNat + f.borrowed / c.borrowUnit) % 2 ^ 64

variable {s : PrivateState} {p : PrivatePosition} {ev : PrivateEvent}

theorem credits_self (hf : f.deposited = 0 ∧ f.borrowed = 0) : Credits c p f p := by
  constructor
  · rw [hf.1, Nat.zero_div, Nat.add_zero, Nat.mod_eq_of_lt p.collateralTokens.isLt]
  · rw [hf.2, Nat.zero_div, Nat.add_zero, Nat.mod_eq_of_lt p.borrowTokens.isLt]

theorem privateObligation_of_deposit {a : PrivateCollateralAccounts} {amount : U64}
    {encrypted : SharedAmount} (h : w.privateDepositCollateral a amount encrypted = .ok w') :
    a.obligation = c.obligation ↔ a.privateObligation = c.privateObligation := by
  simp only [World.privateDepositCollateral, CollateralAccounts.check, bind_eq_ok, pure_eq_ok,
    Prod.exists, Prod.mk.injEq] at h
  obtain ⟨m, r, o₁, ⟨-, -, -, -, -, -, -, -, -, -, -, -, _, ho₁, -⟩, s, hs, -⟩ := h
  rw [(obligationOf_ok ho₁).2, (privateOf_ok hs).2]
  simp only [Client.obligation, Client.privateObligation, Pubkey.obligation.injEq,
    Pubkey.privateObligation.injEq]

theorem privateObligation_of_borrow {a : PrivateDebtAccounts} {amount : U64}
    {encrypted : SharedAmount} (h : w.privateBorrow a amount encrypted = .ok w') :
    a.obligation = c.obligation ↔ a.privateObligation = c.privateObligation := by
  simp only [World.privateBorrow, DebtAccounts.check, bind_eq_ok, pure_eq_ok, Prod.exists,
    Prod.mk.injEq] at h
  obtain ⟨m, r, o₁, ⟨-, -, -, -, _, ho₁, -⟩, s, hs, -⟩ := h
  rw [(obligationOf_ok ho₁).2, (privateOf_ok hs).2]
  simp only [Client.obligation, Client.privateObligation, Pubkey.obligation.injEq,
    Pubkey.privateObligation.injEq]

/-- What comes in comes in through a private call. -/
theorem flow_of_other (hfollows : c.Follows mxe w ix) (h : w.exec mxe ix = .ok w')
    (hix : ∀ ev, ix.privateEvent = some (c.privateObligation, ev) → ¬ ev.Adds) :
    (c.flow w o ix).deposited = 0 ∧ (c.flow w o ix).borrowed = 0 := by
  cases ix with
  | depositCollateral a amount => exact ⟨Client.collateral_other hfollows, rfl⟩
  | borrow a amount => exact ⟨rfl, Client.debt_other hfollows⟩
  | privateDepositCollateral a amount encrypted =>
      have hother : a.obligation ≠ c.obligation := by
        intro hown
        have hkey := (privateObligation_of_deposit h).mp hown
        exact hix (.depositCollateral a.reserve encrypted) (hkey ▸ rfl) trivial
      exact ⟨Client.collateral_other hother, rfl⟩
  | privateBorrow a amount encrypted =>
      have hother : a.obligation ≠ c.obligation := by
        intro hown
        have hkey := (privateObligation_of_borrow h).mp hown
        exact hix (.borrow a.reserve encrypted) (hkey ▸ rfl) trivial
      exact ⟨rfl, Client.debt_other hother⟩
  | liquidate a amount => exact Client.seized_adds_nothing
  | executePrivateLiquidation a amount => exact Client.seized_adds_nothing
  | _ => exact ⟨rfl, rfl⟩

/-- A private call of the client waits, and encrypts the whole tokens of what comes in. -/
theorem credits_of_adds (hfollows : c.Follows mxe w ix) (h : w.exec mxe ix = .ok w')
    (hix : ix.privateEvent = some (c.privateObligation, ev)) (hadds : ev.Adds) :
    (w.account c.privateObligation).updates = 0 ∧
      Credits c p (c.flow w o ix) (ev.credit mxe p) := by
  cases ix with
  | privateDepositCollateral a amount encrypted =>
      obtain ⟨hkey, rfl⟩ : a.privateObligation = c.privateObligation ∧
          PrivateEvent.depositCollateral a.reserve encrypted = ev := by
        simpa only [Instruction.privateEvent, Option.some.injEq, Prod.mk.injEq] using hix
      obtain ⟨hreserve, hamount, hidle⟩ := hfollows hkey
      -- the accounts check ties the private account to the public one of the same user
      have hown := (privateObligation_of_deposit h).mpr hkey
      have hflow : c.flow w o (.privateDepositCollateral a amount encrypted) =
          { deposited := amount.toNat } := by
        rw [Client.flow, Client.collateral_own hown, if_pos hreserve.symm]
      rw [hflow, ← hkey]
      refine ⟨hkey ▸ hidle, ?_, ?_⟩
      · rw [← hamount]
        exact BitVec.toNat_add _ _
      · exact (credits_self (c := c) (f := {}) ⟨rfl, rfl⟩).debt
  | privateBorrow a amount encrypted =>
      obtain ⟨hkey, rfl⟩ : a.privateObligation = c.privateObligation ∧
          PrivateEvent.borrow a.reserve encrypted = ev := by
        simpa only [Instruction.privateEvent, Option.some.injEq, Prod.mk.injEq] using hix
      obtain ⟨hreserve, hamount, hidle⟩ := hfollows hkey
      have hown := (privateObligation_of_borrow h).mpr hkey
      have hflow : c.flow w o (.privateBorrow a amount encrypted) =
          { borrowed := amount.toNat } := by
        rw [Client.flow, Client.debt_own hown, if_pos hreserve.symm]
      rw [hflow, ← hkey]
      refine ⟨hkey ▸ hidle, ?_, ?_⟩
      · exact (credits_self (c := c) (f := {}) ⟨rfl, rfl⟩).collateral
      · rw [← hamount]
        exact BitVec.toNat_add _ _
  | initPrivateObligation | privateCheckLiquidatable | executePrivateLiquidation
  | executeComputation | callback | abortComputation =>
      simp only [Instruction.privateEvent, Option.some.injEq, Prod.mk.injEq] at hix
      rw [← hix.2] at hadds
      exact False.elim hadds
  | _ => cases hix

/-- The client's updates are not lost. -/
theorem keepsUpdates_of_follows (hfollows : c.Follows mxe w ix)
    (hix : ix.privateEvent = some (c.privateObligation, ev)) :
    ev.KeepsUpdates (w.account c.privateObligation) := by
  cases ix with
  | abortComputation key executed i =>
      obtain ⟨hkey, rfl⟩ : key = c.privateObligation ∧ PrivateEvent.abort executed i = ev := by
        simpa only [Instruction.privateEvent, Option.some.injEq, Prod.mk.injEq] using hix
      exact hkey ▸ hfollows hkey
  | initPrivateObligation | privateDepositCollateral | privateBorrow | privateCheckLiquidatable
  | executePrivateLiquidation | executeComputation | callback =>
      simp only [Instruction.privateEvent, Option.some.injEq, Prod.mk.injEq] at hix
      rw [← hix.2]
      trivial
  | _ => cases hix

theorem exec_settles (hs : w.privates c.privateObligation = some s) (hset : s.Settles mxe p)
    (hfollows : c.Follows mxe w ix) (h : w.exec mxe ix = .ok w') :
    ∃ s' p', w'.privates c.privateObligation = some s' ∧ s'.Settles mxe p' ∧
      Credits c p (c.flow w o ix) p' := by
  by_cases hix : ∃ ev, ix.privateEvent = some (c.privateObligation, ev)
  · obtain ⟨ev, hix⟩ := hix
    obtain ⟨s', hon, hw'⟩ := exec_event h hix
    have hkeeps := keepsUpdates_of_follows hfollows hix
    rw [account_eq hs] at hon hkeeps
    have hs' : w'.privates c.privateObligation = some s' := by rw [hw', store_self]
    -- only an event that adds puts an amount in flight
    by_cases hadds : ev.Adds
    · obtain ⟨hidle, hcredits⟩ := credits_of_adds (o := o) (p := p) hfollows h hix hadds
      rw [account_eq hs] at hidle
      exact ⟨s', _, hs', hset.on (fun _ => hidle) hkeeps hon, hcredits⟩
    · have hsame : ev.credit mxe p = p := by
        cases ev with
        | depositCollateral | borrow => exact absurd trivial hadds
        | _ => rfl
      have hsettles := hset.on (fun hcon => absurd hcon hadds) hkeeps hon
      rw [hsame] at hsettles
      refine ⟨s', p, hs', hsettles, credits_self (flow_of_other hfollows h fun ev' hix' => ?_)⟩
      rw [hix] at hix'
      cases hix'
      exact hadds
  · refine ⟨s, p, ?_, hset, credits_self (flow_of_other hfollows h fun ev hix' => ?_)⟩
    · cases hnone : ix.privateEvent with
      | none => rw [exec_event_none h hnone, hs]
      | some q =>
          obtain ⟨k, ev⟩ := q
          obtain ⟨s₁, -, hw'⟩ := exec_event h hnone
          have hother : c.privateObligation ≠ k := by
            rintro rfl
            exact hix ⟨ev, hnone⟩
          rw [hw', store_of_ne _ _ hother]
          exact hs
    · exact absurd ⟨ev, hix'⟩ hix

/-! ## Runs -/

/-- Once everything in flight has arrived, the encrypted position is the public one in whole
tokens. -/
def Mirrors (mxe : Mxe) (c : Client) (w : World) : Prop :=
  ∀ o s, w.obligations c.obligation = some o → w.privates c.privateObligation = some s →
    ∀ t, s.Arrives mxe t → t.Quiet → c.Reflects o (t.position mxe)

/-- The client has both obligations, and nothing in either. -/
structure EmptyPosition (mxe : Mxe) (c : Client) (w : World) : Prop where
  obligation : ∃ o, w.obligations c.obligation = some o ∧
    (∀ i : Fin maxDepositsCountInReserve, o.deposits[i].isActive = false) ∧
    ∀ i : Fin maxBorrowCountInReserve, o.borrows[i].isActive = false
  privateObligation : ∃ s, w.privates c.privateObligation = some s ∧
    s.account.isInitialized = true ∧ s.Quiet ∧ s.position mxe = ⟨0, 0⟩

/-- The two books agree, up to what is in flight, and the debt stands at its reserve's index. -/
structure Synced (mxe : Mxe) (c : Client) (w : World) (o : Obligation) (s : PrivateState)
    (p : PrivatePosition) : Prop where
  obligation : w.obligations c.obligation = some o
  standsAt : o.StandsAt c.borrowReserve (indexAt w.reserves c.borrowReserve)
  privateObligation : w.privates c.privateObligation = some s
  settles : s.Settles mxe p
  reflects : c.Reflects o p

theorem EmptyPosition.synced (h : EmptyPosition mxe c w) : ∃ o s p, Synced mxe c w o s p := by
  obtain ⟨o, ho, hdeposits, hborrows⟩ := h.obligation
  obtain ⟨s, hs, hinit, hquiet, hposition⟩ := h.privateObligation
  have hdead : ∀ i : Fin maxDepositsCountInReserve, ¬ depositLayout.Live o.deposits[i] :=
    fun i => depositLayout_live.not.mpr (Bool.eq_false_iff.mp (hdeposits i))
  have hfree : ∀ i : Fin maxBorrowCountInReserve, ¬ borrowLayout.Live o.borrows[i] :=
    fun i => borrowLayout_live.not.mpr (Bool.eq_false_iff.mp (hborrows i))
  refine ⟨o, s, _, ho, ?_, hs, PrivateState.settles_of_quiet hinit hquiet, ?_, ?_⟩
  · exact Obligation.standsAt_of_free Client.borrowReserve_ne_default hfree
  · rw [hposition, Obligation.deposited_eq_zero Client.collateralReserve_ne_default hdead,
      Nat.zero_div]
    rfl
  · rw [hposition, Obligation.owed_eq_zero Client.borrowReserve_ne_default hfree, Nat.zero_div]
    rfl

theorem Synced.mirrors (h : Synced mxe c w o s p) : Mirrors mxe c w := by
  intro o' s' ho' hs' t harr hquiet
  cases h.obligation.symm.trans ho'
  cases h.privateObligation.symm.trans hs'
  rw [(h.settles.arrives harr).position hquiet]
  exact h.reflects

/-- The position that an accepted instruction leads to reflects the obligation it leaves exactly
when the instruction keeps whole tokens. -/
theorem Synced.exec (hsync : Synced mxe c w o s p) (hfollows : c.Follows mxe w ix)
    (hzero : c.ZeroInterest w w') (h : w.exec mxe ix = .ok w') :
    ∃ o' s' p', w'.obligations c.obligation = some o' ∧
      o'.StandsAt c.borrowReserve (indexAt w'.reserves c.borrowReserve) ∧
      w'.privates c.privateObligation = some s' ∧ s'.Settles mxe p' ∧
      (c.Reflects o' p' ↔ c.KeepsTokens mxe w ix) := by
  obtain ⟨o', hmoved⟩ := exec_moved hsync.obligation hsync.standsAt h hzero
  obtain ⟨s', p', hs', hsettles, hcredits⟩ :=
    exec_settles (o := o) hsync.privateObligation hsync.settles hfollows h
  refine ⟨o', s', p', hmoved.found, ?_, hs', hsettles, ?_⟩
  · intro i hkey
    have hindex := hmoved.debts.standsAt i hkey
    obtain ⟨r, hr, hrate⟩ := Option.map_eq_some_iff.mp hindex.symm
    rw [hzero r hr, hrate]
  · obtain ⟨hcollateral, hdebt⟩ := c.flow_one_way w o ix
    have hpos (d : U8) : 0 < 10 ^ d.toNat := Nat.pow_pos (by decide)
    have hheld := hsync.reflects
    -- each side is a matter of whole units by itself
    have hfirst := floor_iff (hpos c.collateralDecimals) hmoved.deposited hcollateral
      (hheld.collateral ▸ p.collateralTokens.isLt)
    have hsecond := floor_iff (hpos c.borrowDecimals) hmoved.debts.owed hdebt
      (hheld.debt ▸ p.borrowTokens.isLt)
    have hleft : c.Reflects o' p' ↔ p'.collateralTokens.toNat =
        o'.deposited c.collateralReserve / c.collateralUnit ∧
        p'.borrowTokens.toNat = o'.owed c.borrowReserve / c.borrowUnit :=
      ⟨fun hr => ⟨hr.collateral, hr.debt⟩, fun hr => ⟨hr.1, hr.2⟩⟩
    rw [hleft, hcredits.collateral, hcredits.debt, hheld.collateral, hheld.debt]
    refine (and_congr hfirst hsecond).trans ?_
    constructor
    · intro hkeeps _ q hq
      cases hsync.obligation.symm.trans hq
      exact hkeeps
    · intro hkeeps
      exact hkeeps (by rw [h]; rfl) o hsync.obligation

/-- A client waits for each callback and encrypts the whole tokens of each amount, and the borrow
reserve bears no interest.  From an empty position, the encrypted position mirrors the public one
after every step exactly when every step keeps whole tokens. -/
theorem mirrors_iff (mxe : Mxe) (c : Client) (w : World) (ixs : List Instruction)
    (hstart : EmptyPosition mxe c w)
    (hfollows : EachStep (tx mxe) (c.Follows mxe) w ixs)
    (hzero : EachStep (tx mxe) (fun w ix => c.ZeroInterest w (w.tx mxe ix)) w ixs) :
    Always (tx mxe) (Mirrors mxe c) w ixs ↔ EachStep (tx mxe) (c.KeepsTokens mxe) w ixs := by
  -- the invariant is carried by every step that keeps tokens, and a step that does not shows in the
  -- state right after it
  let Inv : World → Prop := fun w => ∃ o s p, Synced mxe c w o s p
  have hP : ∀ w, Inv w → Mirrors mxe c w := by
    rintro w ⟨o, s, p, hsync⟩
    exact hsync.mirrors
  have hkeep : ∀ w ix, Inv w → (c.Follows mxe w ix ∧ c.ZeroInterest w (w.tx mxe ix)) →
      c.KeepsTokens mxe w ix → Inv (w.tx mxe ix) := by
    rintro w ix ⟨o, s, p, hsync⟩ ⟨hfollows, hzero⟩ hkeeps
    cases h : w.exec mxe ix with
    | error e =>
        rw [World.tx, attemptStep, h]
        exact ⟨o, s, p, hsync⟩
    | ok w' =>
        have htx : w.tx mxe ix = w' := attemptStep_ok h
        rw [htx] at hzero ⊢
        obtain ⟨o', s', p', ho', hat, hs', hsettles, hiff⟩ := hsync.exec hfollows hzero h
        exact ⟨o', s', p', ho', hat, hs', hsettles, hiff.mpr hkeeps⟩
  have hbreak : ∀ w ix, Inv w → (c.Follows mxe w ix ∧ c.ZeroInterest w (w.tx mxe ix)) →
      ¬ c.KeepsTokens mxe w ix → ¬ Mirrors mxe c (w.tx mxe ix) := by
    rintro w ix ⟨o, s, p, hsync⟩ ⟨hfollows, hzero⟩ hbroken hmirrors
    cases h : w.exec mxe ix with
    | error e =>
        apply hbroken
        intro hok
        rw [h] at hok
        cases hok
    | ok w' =>
        have htx : w.tx mxe ix = w' := attemptStep_ok h
        rw [htx] at hzero hmirrors
        obtain ⟨o', s', p', ho', hat, hs', hsettles, hiff⟩ := hsync.exec hfollows hzero h
        obtain ⟨t, harr, hquiet⟩ := s'.exists_arrives_quiet mxe
        have hreflects := hmirrors o' s' ho' hs' t harr hquiet
        rw [(hsettles.arrives harr).position hquiet] at hreflects
        exact hbroken (hiff.mp hreflects)
  exact always_iff_eachStep_of hP hkeep hbreak ixs w hstart.synced (hfollows.and hzero)

/-! ## A client of the pool -/

/-- The pool's second user; both tokens have two decimals. -/
def dollarClient : Client where
  market := poolMarket
  user := .key 2
  collateralMint := usd
  borrowMint := usd
  collateralDecimals := 2
  borrowDecimals := 2

/-- The second user deposits liquidity, and opens both obligations. -/
def arrivalRun : List Instruction :=
  openPool ++ join 1 ++
    [.openTokenAccount (.key 102) usd (.key 2),
      .openTokenAccount (.key 202) (.collateralMint usdReserve) (.key 2),
      .mintTokens usd (.key 102) (.key 1) 10000, .deposit (liquidityOf 2) 10000,
      .initObligation (.key 2) poolMarket (.obligation poolMarket (.key 2)),
      .initPrivateObligation (.key 2) poolMarket secondPrivate,
      .executeComputation secondPrivate 0 1, .callback secondPrivate 0]

def arrivalWorld : World := arrivalRun.foldl (tx plainMxe) (genesis ⟨0, 0⟩)

/-- A deposit of 5.50 and a borrow of 1.20, each up to its callback. -/
def privateCalls : List Instruction :=
  [.privateDepositCollateral { collateralOf 2 with privateObligation := secondPrivate } 550
      (plainAmount 5),
    .executeComputation secondPrivate 0 2, .callback secondPrivate 0, refreshPool 0,
    refreshUser 2,
    .privateBorrow { debtOf 2 with privateObligation := secondPrivate } 120 (plainAmount 1),
    .executeComputation secondPrivate 0 3, .callback secondPrivate 0]

theorem emptyPosition_arrival : EmptyPosition plainMxe dollarClient arrivalWorld := by
  have hobligation : (arrivalWorld.obligations dollarClient.obligation).any (fun o =>
      (∀ i : Fin maxDepositsCountInReserve, o.deposits[i].isActive = false) ∧
        ∀ i : Fin maxBorrowCountInReserve, o.borrows[i].isActive = false) = true := by
    decide +kernel
  have hprivate : (arrivalWorld.privates dollarClient.privateObligation).any (fun s =>
      s.account.isInitialized = true ∧ (s.queued = [] ∧ s.outputs = []) ∧
        s.position plainMxe = ⟨0, 0⟩) = true := by decide +kernel
  obtain ⟨o, ho, hfree⟩ := (Option.any_eq_true _ _).mp hobligation
  obtain ⟨s, hs, hempty⟩ := (Option.any_eq_true _ _).mp hprivate
  have hempty := of_decide_eq_true hempty
  exact ⟨⟨o, ho, of_decide_eq_true hfree⟩, ⟨s, hs, hempty⟩⟩

/-- The calls are those of a client, with nothing in flight when they are made. -/
theorem follows_privateCalls :
    EachStep (tx plainMxe) (dollarClient.Follows plainMxe) arrivalWorld privateCalls := by
  refine ⟨fun _ => ⟨rfl, by decide +kernel, by decide +kernel⟩, trivial, trivial, trivial, trivial,
    fun _ => ⟨rfl, by decide +kernel, by decide +kernel⟩, trivial, trivial, trivial⟩

/-- Repaying 0.20 and withdrawing 0.50 takes only fractions. -/
def fractionCalls : List Instruction :=
  [.repay (debtOf 2) 20, .withdrawCollateral (collateralOf 2) 50]

theorem follows_fractionCalls (w : World) :
    EachStep (tx plainMxe) (dollarClient.Follows plainMxe) w fractionCalls :=
  ⟨trivial, trivial, trivial⟩

/-- Repaying 1.20 takes a whole token. -/
def fullRepayment : List Instruction := [.repay (debtOf 2) 120]

theorem follows_fullRepayment (w : World) :
    EachStep (tx plainMxe) (dollarClient.Follows plainMxe) w fullRepayment :=
  ⟨trivial, trivial⟩

def repaidWorld : World := (privateCalls ++ fullRepayment).foldl (tx plainMxe) arrivalWorld

theorem mirrors_iff_fractionCalls :
    Always (tx plainMxe) (Mirrors plainMxe dollarClient) arrivalWorld
      (privateCalls ++ fractionCalls) :=
  (mirrors_iff plainMxe dollarClient arrivalWorld (privateCalls ++ fractionCalls)
    emptyPosition_arrival (follows_privateCalls.append (follows_fractionCalls _))
    (by decide +kernel)).mpr (by decide +kernel)

/-- A debt that is repaid in full stays in the encrypted position. -/
theorem not_forall_mirrors :
    ¬ ∀ (mxe : Mxe) (c : Client) (w : World) (ixs : List Instruction),
        EmptyPosition mxe c w → EachStep (tx mxe) (c.Follows mxe) w ixs →
        EachStep (tx mxe) (fun w ix => c.ZeroInterest w (w.tx mxe ix)) w ixs →
        Always (tx mxe) (Mirrors mxe c) w ixs := by
  intro hall
  have hrun := hall plainMxe dollarClient arrivalWorld (privateCalls ++ fullRepayment)
    emptyPosition_arrival (follows_privateCalls.append (follows_fullRepayment _))
    (by decide +kernel)
  have hlast : Mirrors plainMxe dollarClient repaidWorld := hrun.foldl
  have hprivate : (repaidWorld.privates dollarClient.privateObligation).any (fun s =>
      (s.queued = [] ∧ s.outputs = []) ∧ s.position plainMxe = ⟨5, 1⟩) = true := by
    decide +kernel
  have hobligation : (repaidWorld.obligations dollarClient.obligation).any (fun o =>
      o.owed dollarClient.borrowReserve = 0) = true := by decide +kernel
  obtain ⟨s, hs, hposition⟩ := (Option.any_eq_true _ _).mp hprivate
  obtain ⟨o, ho, howed⟩ := (Option.any_eq_true _ _).mp hobligation
  obtain ⟨hquiet, hposition⟩ := of_decide_eq_true hposition
  have hdebt := (hlast o s ho hs s .refl hquiet).debt
  rw [hposition, of_decide_eq_true howed, Nat.zero_div] at hdebt
  exact absurd hdebt (by decide)

end World

end VeilVault
