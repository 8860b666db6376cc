/-
# VeilVault.World.Payouts — what the books promise, the vaults pay.

Tokens are conserved: all accounts of a mint together hold no more than it has issued
(`conserved_run`).  With the vaults backing the books this settles two questions a user would ask.
Can everybody be paid?  At the rate of the books all holders of a reserve's cTokens together are
owed no more than the reserve's liquidity (`redemptions_fit`).  Can a payment fail that the books
allow?  No: when the program's own checks pass, the token program never refuses to pay out, since
the vault has the funds and the receiving account the room (`payouts_honoured`).
-/
import VeilVault.Ledger.Liquidation
import VeilVault.Reserve.ExchangeRate
import VeilVault.World.Links

namespace VeilVault

open Kit

namespace World

variable {mxe : Mxe} {w w' : World} {k M mint dest user : Pubkey} {amount : U64}

/-! ## Conservation -/

theorem conserved_run (mxe : Mxe) (clock : Clock) (ixs : List Instruction) :
    (ixs.foldl (tx mxe) (genesis clock)).tokens.Conserved := by
  let Inv : World → Prop := fun w => w.tokens.Conserved
  have hstart : Inv (genesis clock) := TokenLedger.conserved_empty
  exact run_invariant ixs hstart fun _ _ _ _ hv h => (exec_calls h).conserved hv

/-! ## Payments out of a reserve's vaults -/

section Vaults

variable {t : TokenLedger Pubkey} {d : TokenAccount Pubkey}

/-- The liquidity vault pays whatever it holds to any account of the token. -/
theorem exists_payout (hc : t.Conserved) (haccounts : ReserveAccounts t k M mint)
    (hd : t.accounts dest = some d) (hmint : d.mint = mint)
    (hfunds : amount.toNat ≤ t.balance (.liquidityVault k)) :
    ∃ t', t.transfer (.liquidityVault k) mint dest M amount = .ok t' := by
  obtain ⟨n, hvault⟩ := haccounts.liquidityVault
  obtain ⟨c, hmint'⟩ := haccounts.underlying
  exact hc.exists_transfer hvault hd hmint' rfl hmint rfl hfunds

/-- The collateral vault releases whatever it holds to any account of the cToken. -/
theorem exists_release (hc : t.Conserved) (haccounts : ReserveAccounts t k M mint)
    (hd : t.accounts dest = some d) (hmint : d.mint = .collateralMint k)
    (hfunds : amount.toNat ≤ t.balance (.collateralSupply k)) :
    ∃ t', t.transfer (.collateralSupply k) (.collateralMint k) dest M amount = .ok t' := by
  obtain ⟨n, hvault⟩ := haccounts.collateralSupply
  obtain ⟨c, hmint'⟩ := haccounts.collateralMint
  exact hc.exists_transfer hvault hd hmint' rfl hmint rfl hfunds

end Vaults

/-- What holds of every reachable world, as far as payments are concerned. -/
structure Sound (w : World) : Prop where
  linked : w.Linked
  backed : w.books.Backed
  conserved : w.tokens.Conserved

theorem sound_run (mxe : Mxe) (clock : Clock) (ixs : List Instruction) :
    (ixs.foldl (tx mxe) (genesis clock)).Sound :=
  ⟨linked_run mxe clock ixs, backed_run mxe clock ixs, conserved_run mxe clock ixs⟩

/-- The accounts of the reserve that an instruction names by market and mint. -/
theorem Sound.accounts {r : Reserve} (hw : w.Sound) (hr : w.reserves k = some r)
    (hk : k = .reserve M mint) : ReserveAccounts w.tokens k M mint := by
  have hfields := (hw.linked.wellFormed k r hr).key.symm.trans hk
  rw [Pubkey.reserve.injEq] at hfields
  have haccounts := hw.linked.accounts k r hr
  rw [hfields.1, hfields.2] at haccounts
  exact haccounts

theorem Sound.available_le {r : Reserve} (hw : w.Sound) (hr : w.reserves k = some r) :
    r.liquidity.availableAmount.toNat ≤ w.tokens.balance (.liquidityVault k) := by
  have havail := hw.backed.available k
  have hbooks : w.books.available k = r.liquidity.availableAmount.toNat := amountIn_of hr
  rw [hbooks] at havail
  exact havail

theorem Sound.deposited_le {x : Pubkey} {o : Obligation} (hw : w.Sound) (hk : k.isWallet = false)
    (ho : w.obligations x = some o) :
    o.deposited k ≤ w.tokens.balance (.collateralSupply k) := by
  have hcovered := (hw.backed.collateral k hk).le x
  have hbooks : w.books.deposited k x = o.deposited k := amountIn_of ho
  rw [hbooks] at hcovered
  exact hcovered

/-! ### A loan, a withdrawal, a release of collateral -/

theorem Sound.borrow_iff (hw : w.Sound) (a : DebtAccounts) :
    (∃ w', w.borrow a amount = .ok w') ↔ ∃ m r o r' o', a.check w = .ok (m, r, o) ∧
      Ledger.borrow m w.clock a.reserve r o amount = .ok (r', o') := by
  simp only [World.borrow, bind_eq_ok, cpi_eq_ok, pure_eq_ok, Prod.exists]
  constructor
  · rintro ⟨w', m, r, o, hcheck, r', o', hled, -⟩
    exact ⟨m, r, o, r', o', hcheck, hled⟩
  · rintro ⟨m, r, o, r', o', hcheck, hled⟩
    have hc := DebtAccounts.check_eq_ok.mp hcheck
    obtain ⟨d, hd, hmint⟩ := hc.user
    have havail := (Ledger.borrow_ok hled).reserve.1
    have hbacked := hw.available_le hc.reserve
    have hfunds : amount.toNat ≤ w.tokens.balance (.liquidityVault a.reserve) := by omega
    obtain ⟨t, ht⟩ := exists_payout hw.conserved (hw.accounts hc.reserve hc.key) hd hmint hfunds
    rw [← hc.liquidityVault] at ht
    exact ⟨_, m, r, o, hcheck, r', o', hled, t, ht, rfl⟩

theorem Sound.withdrawCollateral_iff (hw : w.Sound) (a : CollateralAccounts) :
    (∃ w', w.withdrawCollateral a amount = .ok w') ↔ ∃ m r o o', a.check w = .ok (m, r, o) ∧
      Ledger.withdrawCollateral m w.clock a.reserve o amount = .ok o' := by
  simp only [World.withdrawCollateral, bind_eq_ok, cpi_eq_ok, pure_eq_ok, Prod.exists]
  constructor
  · rintro ⟨w', m, r, o, hcheck, o', hled, -⟩
    exact ⟨m, r, o, o', hcheck, hled⟩
  · rintro ⟨m, r, o, o', hcheck, hled⟩
    have hc := CollateralAccounts.checked hcheck
    obtain ⟨d, hd, hmint, -⟩ := hc.collateral
    have hk := not_wallet_of_seeds hc.key
    have hslots := (Ledger.frame_withdrawCollateral hled).2 a.reserve (Pubkey.ne_default hk)
    rw [if_pos rfl] at hslots
    have hbacked := hw.deposited_le hk hc.obligation
    have hfunds : amount.toNat ≤ w.tokens.balance (.collateralSupply a.reserve) := by omega
    obtain ⟨t, ht⟩ := exists_release hw.conserved (hw.accounts hc.reserve hc.key) hd
      (hmint.trans hc.collateralMint) hfunds
    rw [← hc.supplyVault, ← hc.collateralMint] at ht
    exact ⟨_, m, r, o, hcheck, o', hled, t, ht, rfl⟩

/-- Cashing in cTokens also takes having them. -/
theorem Sound.withdraw_iff (hw : w.Sound) (a : LiquidityAccounts) :
    (∃ w', w.withdraw a amount = .ok w') ↔ ∃ m r r' l, a.check w = .ok (m, r) ∧
      Ledger.withdraw m w.clock r amount = .ok (r', l) ∧
      amount.toNat ≤ w.tokens.balance a.userCollateralAccount := by
  simp only [World.withdraw, bind_eq_ok, cpi_eq_ok, pure_eq_ok, Prod.exists]
  constructor
  · rintro ⟨w', m, r, hcheck, r', l, hled, t₁, hburn, -⟩
    refine ⟨m, r, r', l, hcheck, hled, ?_⟩
    have hbal := (TokenLedger.burn_ok hburn).2.2.2 a.userCollateralAccount
    rw [if_pos rfl] at hbal
    omega
  · rintro ⟨m, r, r', l, hcheck, hled, hhas⟩
    have hc := LiquidityAccounts.checked hcheck
    have hsign := LiquidityAccounts.wallet hcheck
    obtain ⟨d, hd, hmint, -⟩ := hc.user
    obtain ⟨s, hs, hsmint, hsauth⟩ := hc.collateral
    have haccounts := hw.accounts hc.reserve hc.key
    obtain ⟨n, hissued⟩ := haccounts.collateralMint
    obtain ⟨t₁, ht₁⟩ := hw.conserved.exists_burn hs (hc.collateralMint ▸ hissued) hsmint hsauth hhas
    -- burning the cTokens touches neither the vault nor the user's other account
    have hcall : TokenLedger.Calls (· = a.depositor) w.tokens t₁ := .single (.burn rfl ht₁)
    obtain ⟨n', hd'⟩ := hcall.keepsAccounts _ _ hd
    have hsame := hw.backed.guarded.burnt hsign ht₁ (x := .liquidityVault a.reserve) rfl
    have havail := (Ledger.reserve_withdraw hled).1
    have hbacked := hw.available_le hc.reserve
    have hfunds : l.toNat ≤ t₁.balance (.liquidityVault a.reserve) := by
      have hsame' : t₁.balance (.liquidityVault a.reserve) =
          w.tokens.balance (.liquidityVault a.reserve) := hsame
      omega
    obtain ⟨t₂, ht₂⟩ := exists_payout (hcall.conserved hw.conserved)
      (haccounts.mono hcall.keepsAccounts hcall.keepsMints) hd' hmint hfunds
    rw [← hc.liquidityVault] at ht₂
    exact ⟨_, m, r, hcheck, r', l, hled, t₁, ht₁, t₂, ht₂, rfl⟩

/-- A liquidator who can pay is given the collateral. -/
theorem Sound.liquidate_iff (hw : w.Sound) (a : LiquidationAccounts) :
    (∃ w', w.liquidate a amount = .ok w') ↔ ∃ m o s t, a.check w = .ok (m, o) ∧
      Ledger.liquidate m w.clock a.repayReserve a.withdrawReserve w.reserves o amount = .ok s ∧
      w.tokens.transfer a.liquidatorRepayTokenAccount a.repayReserveMint a.repayLiquidityVault
        a.liquidator s.actualRepay = .ok t := by
  simp only [World.liquidate, settleSeizure, bind_eq_ok, cpi_eq_ok, pure_eq_ok, Prod.exists]
  constructor
  · rintro ⟨w', m, o, hcheck, s, hled, t, ht, -⟩
    exact ⟨m, o, s, t, hcheck, hled, ht⟩
  · rintro ⟨m, o, s, t, hcheck, hled, ht⟩
    have hc := LiquidationAccounts.checked hcheck
    have hsign := LiquidationAccounts.wallet hcheck
    obtain ⟨q, hq, hmarket⟩ := hc.withdrawIn
    obtain ⟨d, hd, hmint⟩ := hc.collateral
    have hk := hw.backed.keys _ _ hq
    have hslots := (Ledger.frame_seize (Ledger.liquidate_ok hled)).2 a.withdrawReserve
      (Pubkey.ne_default hk)
    rw [if_pos rfl] at hslots
    have hbacked := hw.deposited_le hk hc.obligation
    -- the repayment came out of the liquidator's own account
    have hcall : TokenLedger.Calls (· = a.liquidator) w.tokens t := .single (.transfer rfl ht)
    obtain ⟨n, hd'⟩ := hcall.keepsAccounts _ _ hd
    have hpaid := hw.backed.guarded.paidIn hsign ht (x := .collateralSupply a.withdrawReserve) rfl
    have hfunds : s.ctokensToSeize.toNat ≤ t.balance (.collateralSupply a.withdrawReserve) := by
      have hpaid' : t.balance (.collateralSupply a.withdrawReserve) =
          w.tokens.balance (.collateralSupply a.withdrawReserve) + _ := hpaid
      omega
    have haccounts := hw.linked.accounts _ q hq
    rw [hmarket] at haccounts
    obtain ⟨t', ht'⟩ := exists_release (hcall.conserved hw.conserved)
      (haccounts.mono hcall.keepsAccounts hcall.keepsMints) hd' (hmint.trans hc.collateralMint)
      hfunds
    rw [← hc.supplyVault, ← hc.collateralMint] at ht'
    exact ⟨_, m, o, hcheck, s, hled, t, ht, t', ht', rfl⟩

/-! ## In every reachable world -/

/-- A payment fails only where the program itself says so: once its checks and its books allow it,
the token program pays. -/
structure HonoursPayouts (w : World) : Prop where
  borrow : ∀ (a : DebtAccounts) (amount : U64), (∃ w', w.borrow a amount = .ok w') ↔
    ∃ m r o r' o', a.check w = .ok (m, r, o) ∧
      Ledger.borrow m w.clock a.reserve r o amount = .ok (r', o')
  withdrawCollateral : ∀ (a : CollateralAccounts) (amount : U64),
    (∃ w', w.withdrawCollateral a amount = .ok w') ↔ ∃ m r o o', a.check w = .ok (m, r, o) ∧
      Ledger.withdrawCollateral m w.clock a.reserve o amount = .ok o'
  withdraw : ∀ (a : LiquidityAccounts) (amount : U64), (∃ w', w.withdraw a amount = .ok w') ↔
    ∃ m r r' l, a.check w = .ok (m, r) ∧ Ledger.withdraw m w.clock r amount = .ok (r', l) ∧
      amount.toNat ≤ w.tokens.balance a.userCollateralAccount
  liquidate : ∀ (a : LiquidationAccounts) (amount : U64), (∃ w', w.liquidate a amount = .ok w') ↔
    ∃ m o s t, a.check w = .ok (m, o) ∧
      Ledger.liquidate m w.clock a.repayReserve a.withdrawReserve w.reserves o amount = .ok s ∧
      w.tokens.transfer a.liquidatorRepayTokenAccount a.repayReserveMint a.repayLiquidityVault
        a.liquidator s.actualRepay = .ok t

/-- No reachable world refuses a payment for want of funds or of room. -/
theorem payouts_honoured (mxe : Mxe) (clock : Clock) (ixs : List Instruction) :
    (ixs.foldl (tx mxe) (genesis clock)).HonoursPayouts := by
  have hw := sound_run mxe clock ixs
  exact {
    borrow := fun a _ => hw.borrow_iff a
    withdrawCollateral := fun a _ => hw.withdrawCollateral_iff a
    withdraw := fun a _ => hw.withdraw_iff a
    liquidate := fun a _ => hw.liquidate_iff a }

/-- The cTokens in all accounts together are no more than the reserve records. -/
theorem Sound.covers_held {r : Reserve} (hw : w.Sound) (hr : w.reserves k = some r) :
    Covers (w.tokens.held (.collateralMint k)) r.collateral.mintTotalSupply.toNat := by
  have hrecorded := hw.backed.supply k
  have hbooks : w.books.minted k = r.collateral.mintTotalSupply.toNat := amountIn_of hr
  rw [hbooks] at hrecorded
  exact (hw.conserved _).mono hrecorded

/-- What the exchange rate makes of an amount is at most its share of the liquidity. -/
theorem redeemed_le {r : Reserve} {c l : U64} (hT : r.liquidity.totalSupplyOrZero ≠ 0)
    (hc : c.toNat ≤ r.collateral.mintTotalSupply.toNat)
    (h : r.collateralExchangeRate.collateralToLiquidity c = .ok l) :
    l.toNat ≤ c.toNat * r.liquidity.totalSupplyOrZero.toNat /
      r.collateral.mintTotalSupply.toNat := by
  obtain ⟨-, hl⟩ := Reserve.collateralToLiquidity_ok h
  have htotal := ne_zero_iff_toNat_pos.mpr hT
  rcases Nat.eq_zero_or_pos r.collateral.mintTotalSupply.toNat with hzero | hpos
  · have hnone : c.toNat = 0 := Nat.le_zero.mp (hzero ▸ hc)
    rw [hl, hnone, Nat.zero_mul, Nat.zero_div, Nat.zero_mod]
    exact Nat.zero_le _
  · obtain ⟨hx, hy⟩ := Reserve.collateralExchangeRate_of_pos hpos htotal
    rw [hl, hx, hy, toNat_toU128]
    exact Nat.mod_le _ _

/-- In every reachable world, and at the current rate, all holders of a reserve's cTokens together
are paid no more than the reserve's liquidity, as long as there is any. -/
theorem redemptions_fit (mxe : Mxe) (clock : Clock) (ixs : List Instruction) (w : World)
    (k : Pubkey) (r : Reserve) (holders : Finset Pubkey) (pays : Pubkey → U64)
    (hrun : ixs.foldl (tx mxe) (genesis clock) = w) (hr : w.reserves k = some r)
    (hT : r.liquidity.totalSupplyOrZero ≠ 0)
    (hpays : ∀ x ∈ holders, ∃ a, w.tokens.accounts x = some a ∧ a.mint = .collateralMint k ∧
      r.collateralExchangeRate.collateralToLiquidity a.amount = .ok (pays x)) :
    ∑ x ∈ holders, (pays x).toNat ≤ r.liquidity.totalSupplyOrZero.toNat := by
  have hcovers := (hrun ▸ sound_run mxe clock ixs : w.Sound).covers_held hr
  have hshares := hcovers.shares r.liquidity.totalSupplyOrZero.toNat holders
  refine (Finset.sum_le_sum fun x hx => ?_).trans hshares
  obtain ⟨a, ha, hmint, hpay⟩ := hpays x hx
  have hheld : w.tokens.held (.collateralMint k) x = a.amount.toNat := by
    rw [TokenLedger.held_eq (hmint ▸ TokenLedger.mintOf_of ha), TokenLedger.balance_of ha]
  have hle := hcovers.le x
  rw [hheld] at hle
  show (pays x).toNat ≤ w.tokens.held _ x * _ / _
  rw [hheld]
  exact redeemed_le hT hle hpay

/-- The first user's account and the collateral vault hold all cTokens there are. -/
theorem redemptions_fit_joined : ∃ r, joinedWorld.reserves usdReserve = some r ∧
    ∑ _x ∈ ({.key 201, .collateralSupply usdReserve} : Finset Pubkey), (5000 : U64).toNat ≤
      r.liquidity.totalSupplyOrZero.toNat := by
  have hsome : (joinedWorld.reserves usdReserve).any (fun r =>
      r.liquidity.totalSupplyOrZero ≠ 0 ∧
        r.collateralExchangeRate.collateralToLiquidity 5000 = .ok 5000) = true := by
    decide +kernel
  have hheld : ∀ x ∈ ({.key 201, .collateralSupply usdReserve} : Finset Pubkey),
      (joinedWorld.tokens.accounts x).any
        (fun a => a.mint = .collateralMint usdReserve ∧ a.amount = 5000) = true := by
    decide +kernel
  obtain ⟨r, hr, hrate⟩ := (Option.any_eq_true _ _).mp hsome
  obtain ⟨hT, hpay⟩ := of_decide_eq_true hrate
  refine ⟨r, hr, redemptions_fit plainMxe ⟨0, 0⟩ joinedRun joinedWorld usdReserve r _
    (fun _ => 5000) rfl hr hT fun x hx => ?_⟩
  obtain ⟨a, ha, hfields⟩ := (Option.any_eq_true _ _).mp (hheld x hx)
  obtain ⟨hmint, hamount⟩ := of_decide_eq_true hfields
  exact ⟨a, ha, hmint, hamount ▸ hpay⟩

end World

end VeilVault
