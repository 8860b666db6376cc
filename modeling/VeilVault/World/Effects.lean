/-
# VeilVault.World.Effects — what one transaction can do to the accounts that hold value.

`Books` is the part of the world that records who has and who owes what: reserves, obligations and
tokens.  `Books.Step` lists every way one instruction can change it, with the ledger part and the
token calls it went through; the list in front of the new books names the reserves that were
accrued on the way.  `exec_step` is the only place where the instructions are taken apart: every
invariant of whole runs is a case analysis over `Books.Step`.
-/
import VeilVault.Ledger.Effects
import VeilVault.World.Instructions

namespace VeilVault

open Kit

structure Books where
  reserves : Pubkey → Option Reserve
  obligations : Pubkey → Option Obligation
  tokens : TokenLedger Pubkey

def World.books (w : World) : Books where
  reserves := w.reserves
  obligations := w.obligations
  tokens := w.tokens

/-- The reserves an instruction brings to the current slot. -/
def Instruction.accrued : Instruction → List Pubkey
  | .refreshReserve _ key _ _ => [key]
  | .deposit a _ => [a.reserve]
  | .withdraw a _ => [a.reserve]
  | .borrow a _ => [a.reserve]
  | .privateBorrow a _ _ => [a.reserve]
  | .repay a _ => [a.reserve]
  | .liquidate a _ => [a.repayReserve, a.withdrawReserve]
  | .executePrivateLiquidation a _ => [a.repayReserve, a.withdrawReserve]
  | _ => []

/-- The reserves an instruction may write. -/
def Instruction.reserves : Instruction → List Pubkey
  | .addReserve a _ => [a.reserve]
  | .updateReserveConfig _ _ _ key _ => [key]
  | ix => ix.accrued

/-- What holders do with tokens of their own: every key they open and every authority they sign
with is a wallet. -/
inductive WalletCall (t : TokenLedger Pubkey) : TokenLedger Pubkey → Prop
  | openMint {key authority : Pubkey} {t' : TokenLedger Pubkey} (hkey : key.isWallet = true)
      (h : t.openMint key authority = .ok t') : WalletCall t t'
  | openAccount {key mint authority : Pubkey} {t' : TokenLedger Pubkey}
      (hkey : key.isWallet = true) (h : t.openAccount key mint authority = .ok t') :
      WalletCall t t'
  | mintTo {mint destination authority : Pubkey} {amount : U64} {t' : TokenLedger Pubkey}
      (hsign : authority.isWallet = true)
      (h : t.mintTo mint destination authority amount = .ok t') : WalletCall t t'
  | transfer {source mint destination authority : Pubkey} {amount : U64}
      {t' : TokenLedger Pubkey} (hsign : authority.isWallet = true)
      (h : t.transfer source mint destination authority amount = .ok t') : WalletCall t t'
  | burn {mint source authority : Pubkey} {amount : U64} {t' : TokenLedger Pubkey}
      (hsign : authority.isWallet = true)
      (h : t.burn mint source authority amount = .ok t') : WalletCall t t'

namespace Books

/-- One instruction's effect. -/
inductive Step (clock : Clock) (b : Books) : List Pubkey → Books → Prop
  | idle : Step clock b [] b
  | wallet {t : TokenLedger Pubkey} (h : WalletCall b.tokens t) :
      Step clock b [] { b with tokens := t }
  | addReserve {market mint k : Pubkey} {config : InitReserveConfigParams} {r : Reserve}
      {t₁ t₂ t₃ t₄ : TokenLedger Pubkey} (hmarket : market.isWallet = false)
      (hk : k.isWallet = false) (hnew : b.reserves k = none)
      (hcreate : Reserve.create clock.slot market k mint config = .ok r)
      (h₁ : b.tokens.openAccount (.liquidityVault k) mint market = .ok t₁)
      (h₂ : t₁.openAccount (.feeVault k) mint market = .ok t₂)
      (h₃ : t₂.openMint (.collateralMint k) market = .ok t₃)
      (h₄ : t₃.openAccount (.collateralSupply k) (.collateralMint k) market = .ok t₄) :
      Step clock b [] { b with reserves := store b.reserves k r, tokens := t₄ }
  | updateConfig {k : Pubkey} {r r' : Reserve} {config : InitReserveConfigParams}
      (hr : b.reserves k = some r) (h : r.updateConfig config = .ok r') :
      Step clock b [] { b with reserves := store b.reserves k r' }
  | refreshReserve {k priceKey : Pubkey} {r r' : Reserve} {priceUpdate : Option PriceUpdate}
      (hr : b.reserves k = some r)
      (h : Ledger.refreshReserve clock r priceKey priceUpdate = .ok r') :
      Step clock b [k] { b with reserves := store b.reserves k r' }
  | deposit {market : LendingMarket} {k mint source target user authority : Pubkey} {r r' : Reserve}
      {a c : U64} {t₁ t₂ : TokenLedger Pubkey} (hr : b.reserves k = some r)
      (hsign : user.isWallet = true) (h : Ledger.deposit market clock r a = .ok (r', c))
      (h₁ : b.tokens.transfer source mint (.liquidityVault k) user a = .ok t₁)
      (h₂ : t₁.mintTo (.collateralMint k) target authority c = .ok t₂) :
      Step clock b [k] { b with reserves := store b.reserves k r', tokens := t₂ }
  | withdraw {market : LendingMarket} {k mint source target user authority : Pubkey}
      {r r' : Reserve} {c l : U64} {t₁ t₂ : TokenLedger Pubkey} (hr : b.reserves k = some r)
      (hsign : user.isWallet = true) (h : Ledger.withdraw market clock r c = .ok (r', l))
      (h₁ : b.tokens.burn (.collateralMint k) source user c = .ok t₁)
      (h₂ : t₁.transfer (.liquidityVault k) mint target authority l = .ok t₂) :
      Step clock b [k] { b with reserves := store b.reserves k r', tokens := t₂ }
  | initObligation {x owner market : Pubkey} (hx : x = .obligation market owner)
      (hnew : b.obligations x = none) :
      Step clock b [] { b with obligations := store b.obligations x (.init owner market) }
  | refreshObligation {x : Pubkey} {o o' : Obligation} {accounts : List Pubkey}
      (ho : b.obligations x = some o)
      (h : Ledger.refreshObligation b.reserves accounts clock o = .ok o') :
      Step clock b [] { b with obligations := store b.obligations x o' }
  | depositCollateral {x k source user : Pubkey} {o o' : Obligation} {a : U64}
      {t : TokenLedger Pubkey} (ho : b.obligations x = some o) (hk : k.isWallet = false)
      (hsign : user.isWallet = true) (h : (o.deposit k a).commit = .ok o')
      (h₁ : b.tokens.transfer source (.collateralMint k) (.collateralSupply k) user a = .ok t) :
      Step clock b [] { b with obligations := store b.obligations x o', tokens := t }
  | withdrawCollateral {market : LendingMarket} {x k target authority : Pubkey}
      {o o' : Obligation} {a : U64} {t : TokenLedger Pubkey} (ho : b.obligations x = some o)
      (hk : k.isWallet = false) (h : Ledger.withdrawCollateral market clock k o a = .ok o')
      (h₁ : b.tokens.transfer (.collateralSupply k) (.collateralMint k) target authority a =
        .ok t) :
      Step clock b [] { b with obligations := store b.obligations x o', tokens := t }
  | borrow {x k mint target authority : Pubkey} {r r' : Reserve} {o o' : Obligation} {a : U64}
      {t : TokenLedger Pubkey} (ho : b.obligations x = some o) (hk : k.isWallet = false)
      (hr : b.reserves k = some r) (h : Ledger.Borrows clock k r o a r' o')
      (h₁ : b.tokens.transfer (.liquidityVault k) mint target authority a = .ok t) :
      Step clock b [k]
        ⟨store b.reserves k r', store b.obligations x o', t⟩
  | repay {x k mint source user : Pubkey} {r r' : Reserve} {o o' : Obligation} {a : U64}
      {t : TokenLedger Pubkey} (ho : b.obligations x = some o) (hk : k.isWallet = false)
      (hr : b.reserves k = some r) (hsign : user.isWallet = true)
      (h : Ledger.repay clock k r o a = .ok (r', o'))
      (h₁ : b.tokens.transfer source mint (.liquidityVault k) user a = .ok t) :
      Step clock b [k]
        ⟨store b.reserves k r', store b.obligations x o', t⟩
  | seize {gate : Obligation → Result Unit} {x repayKey withdrawKey mint source target user
        authority : Pubkey} {o : Obligation} {a : U64} {s : Ledger.Seizure}
      {t₁ t₂ : TokenLedger Pubkey} (ho : b.obligations x = some o) (hsign : user.isWallet = true)
      (h : Ledger.seize gate clock repayKey withdrawKey b.reserves o a = .ok s)
      (h₁ : b.tokens.transfer source mint (.liquidityVault repayKey) user s.actualRepay = .ok t₁)
      (h₂ : t₁.transfer (.collateralSupply withdrawKey) (.collateralMint withdrawKey) target
        authority s.ctokensToSeize = .ok t₂) :
      Step clock b [repayKey, withdrawKey]
        ⟨s.reserves, store b.obligations x s.obligation, t₂⟩

end Books

/-! ## The constraints, read backwards -/

section Checks

variable {w : World} {m : LendingMarket} {r : Reserve} {o : Obligation}

theorem not_wallet_of_seeds {k market mint : Pubkey} (h : k = .reserve market mint) :
    k.isWallet = false := by
  rw [h]
  rfl

theorem LiquidityAccounts.check_ok {a : LiquidityAccounts} (h : a.check w = .ok (m, r)) :
    a.depositor.isWallet = true ∧ w.reserves a.reserve = some r ∧
      a.liquidityVault = .liquidityVault a.reserve ∧
      a.collateralMint = .collateralMint a.reserve := by
  simp only [check, bind_eq_ok, signer_eq_ok, seeds_eq_ok, exists_const, pure_eq_ok,
    Prod.mk.injEq] at h
  obtain ⟨hsign, -, -, r', hr, hvault, hmint, ⟨⟩, -, ⟨⟩, -, -, rfl⟩ := h
  exact ⟨hsign, (World.reserveOf_ok hr).1, hvault, hmint⟩

theorem CollateralAccounts.check_ok {a : CollateralAccounts} (h : a.check w = .ok (m, r, o)) :
    a.depositor.isWallet = true ∧ a.reserve.isWallet = false ∧
      a.collateralMint = .collateralMint a.reserve ∧
      a.collateralSupplyVault = .collateralSupply a.reserve ∧
      w.obligations a.obligation = some o := by
  simp only [check, bind_eq_ok, signer_eq_ok, seeds_eq_ok, exists_const, pure_eq_ok,
    Prod.mk.injEq] at h
  obtain ⟨hsign, -, -, r', hr, hmint, ⟨⟩, -, hvault, o', ho, -, -, rfl⟩ := h
  exact ⟨hsign, not_wallet_of_seeds (World.reserveOf_ok hr).2, hmint, hvault,
    (World.obligationOf_ok ho).1⟩

theorem DebtAccounts.check_ok {a : DebtAccounts} (h : a.check w = .ok (m, r, o)) :
    a.borrower.isWallet = true ∧ a.reserve.isWallet = false ∧ w.reserves a.reserve = some r ∧
      a.liquidityVault = .liquidityVault a.reserve ∧ w.obligations a.obligation = some o := by
  simp only [check, bind_eq_ok, signer_eq_ok, seeds_eq_ok, exists_const, pure_eq_ok,
    Prod.mk.injEq] at h
  obtain ⟨hsign, -, -, o', ho, r', hr, hvault, ⟨⟩, -, -, rfl, rfl⟩ := h
  have hr' := World.reserveOf_ok hr
  exact ⟨hsign, not_wallet_of_seeds hr'.2, hr'.1, hvault, (World.obligationOf_ok ho).1⟩

theorem LiquidationAccounts.check_ok {a : LiquidationAccounts} (h : a.check w = .ok (m, o)) :
    a.liquidator.isWallet = true ∧ w.obligations a.obligation = some o ∧
      o.lendingMarket = a.lendingMarket ∧
      a.repayLiquidityVault = .liquidityVault a.repayReserve ∧
      a.withdrawCollateralMint = .collateralMint a.withdrawReserve ∧
      a.collateralSupplyVault = .collateralSupply a.withdrawReserve := by
  simp only [check, bind_eq_ok, signer_eq_ok, seeds_eq_ok, load_eq_ok, exists_const, pure_eq_ok,
    Prod.mk.injEq] at h
  obtain ⟨hsign, -, -, o', ho, -, -, -, -, hvault, ⟨⟩, -, -, -, hmint, hsupply, ⟨⟩, -, -, rfl⟩ := h
  have ho' := World.obligationIn_ok ho
  exact ⟨hsign, ho'.1, ho'.2, hvault, hmint, hsupply⟩

end Checks

/-! ## Every instruction is a step -/

namespace World

variable {w w' : World} {amount : U64}

theorem addReserve_step {a : AddReserveAccounts} {config : InitReserveConfigParams}
    (h : w.addReserve a config = .ok w') : Books.Step w.clock w.books [] w'.books := by
  simp only [addReserve, bind_eq_ok, ownedMarket_eq_ok, require_eq_ok, vacant_eq_ok, seeds_eq_ok,
    cpi_eq_ok, exists_const, pure_eq_ok] at h
  obtain ⟨market, ⟨-, -, hkey, -⟩, -, hnew, hseeds, hv, t₁, h₁, hf, t₂, h₂, hm, t₃, h₃, hs, t₄, h₄,
    r, hcreate, rfl⟩ := h
  rw [hv] at h₁
  rw [hf] at h₂
  rw [hm] at h₃
  rw [hs, hm] at h₄
  have hmarket : a.lendingMarket.isWallet = false := by
    rw [hkey]
    rfl
  exact .addReserve hmarket (not_wallet_of_seeds hseeds) hnew hcreate h₁ h₂ h₃ h₄

theorem updateReserveConfig_step {owner market mint key : Pubkey} {config : InitReserveConfigParams}
    (h : w.updateReserveConfig owner market mint key config = .ok w') :
    Books.Step w.clock w.books [] w'.books := by
  simp only [updateReserveConfig, bind_eq_ok, constrain_eq_ok, exists_const, pure_eq_ok] at h
  obtain ⟨-, -, r, hr, -, r', hupdate, rfl⟩ := h
  exact .updateConfig (reserveOf_ok hr).1 hupdate

theorem refreshReserve_step {market key priceKey : Pubkey} {priceUpdate : Option PriceUpdate}
    (h : w.refreshReserve market key priceKey priceUpdate = .ok w') :
    Books.Step w.clock w.books [key] w'.books := by
  simp only [refreshReserve, bind_eq_ok, pure_eq_ok] at h
  obtain ⟨-, -, r, hr, r', hrefresh, rfl⟩ := h
  exact .refreshReserve (reserveIn_ok hr).1 hrefresh

theorem deposit_step {a : LiquidityAccounts} (h : w.deposit a amount = .ok w') :
    Books.Step w.clock w.books [a.reserve] w'.books := by
  simp only [deposit, bind_eq_ok, cpi_eq_ok, pure_eq_ok, Prod.exists] at h
  obtain ⟨m, r, hcheck, r', c, hled, t₁, h₁, t₂, h₂, rfl⟩ := h
  obtain ⟨hsign, hr, hvault, hmint⟩ := LiquidityAccounts.check_ok hcheck
  rw [hvault] at h₁
  rw [hmint] at h₂
  exact .deposit hr hsign hled h₁ h₂

theorem withdraw_step {a : LiquidityAccounts} (h : w.withdraw a amount = .ok w') :
    Books.Step w.clock w.books [a.reserve] w'.books := by
  simp only [withdraw, bind_eq_ok, cpi_eq_ok, pure_eq_ok, Prod.exists] at h
  obtain ⟨m, r, hcheck, r', l, hled, t₁, h₁, t₂, h₂, rfl⟩ := h
  obtain ⟨hsign, hr, hvault, hmint⟩ := LiquidityAccounts.check_ok hcheck
  rw [hmint] at h₁
  rw [hvault] at h₂
  exact .withdraw hr hsign hled h₁ h₂

theorem initObligation_step {owner market key : Pubkey}
    (h : w.initObligation owner market key = .ok w') :
    Books.Step w.clock w.books [] w'.books := by
  simp only [initObligation, bind_eq_ok, signer_eq_ok, vacant_eq_ok, seeds_eq_ok, exists_const,
    pure_eq_ok] at h
  obtain ⟨-, -, -, hnew, hkey, rfl⟩ := h
  exact .initObligation hkey hnew

theorem refreshObligation_step {market key : Pubkey} {accounts : List Pubkey}
    (h : w.refreshObligation market key accounts = .ok w') :
    Books.Step w.clock w.books [] w'.books := by
  simp only [refreshObligation, bind_eq_ok, load_eq_ok, pure_eq_ok] at h
  obtain ⟨-, -, o, ho, o', hrefresh, rfl⟩ := h
  exact .refreshObligation (obligationIn_ok ho).1 hrefresh

theorem depositCollateral_step {a : CollateralAccounts}
    (h : w.depositCollateral a amount = .ok w') : Books.Step w.clock w.books [] w'.books := by
  simp only [depositCollateral, bind_eq_ok, cpi_eq_ok, pure_eq_ok, Prod.exists] at h
  obtain ⟨m, r, o, hcheck, o', hled, t, h₁, rfl⟩ := h
  obtain ⟨hsign, hk, hmint, hvault, ho⟩ := CollateralAccounts.check_ok hcheck
  rw [hmint, hvault] at h₁
  exact .depositCollateral ho hk hsign (Ledger.depositCollateral_ok hled) h₁

theorem privateDepositCollateral_step {a : PrivateCollateralAccounts} {encrypted : SharedAmount}
    (h : w.privateDepositCollateral a amount encrypted = .ok w') :
    Books.Step w.clock w.books [] w'.books := by
  simp only [privateDepositCollateral, bind_eq_ok, require_eq_ok, cpi_eq_ok, exists_const,
    pure_eq_ok, Prod.exists] at h
  obtain ⟨m, r, o, hcheck, s, -, -, o', hled, t, h₁, s', -, rfl⟩ := h
  obtain ⟨hsign, hk, hmint, hvault, ho⟩ := CollateralAccounts.check_ok hcheck
  rw [hmint, hvault] at h₁
  exact .depositCollateral ho hk hsign (Ledger.privateDepositCollateral_ok hled) h₁

theorem withdrawCollateral_step {a : CollateralAccounts}
    (h : w.withdrawCollateral a amount = .ok w') : Books.Step w.clock w.books [] w'.books := by
  simp only [withdrawCollateral, bind_eq_ok, cpi_eq_ok, pure_eq_ok, Prod.exists] at h
  obtain ⟨m, r, o, hcheck, o', hled, t, h₁, rfl⟩ := h
  obtain ⟨-, hk, hmint, hvault, ho⟩ := CollateralAccounts.check_ok hcheck
  rw [hmint, hvault] at h₁
  exact .withdrawCollateral ho hk hled h₁

theorem borrow_step {a : DebtAccounts} (h : w.borrow a amount = .ok w') :
    Books.Step w.clock w.books [a.reserve] w'.books := by
  simp only [borrow, bind_eq_ok, cpi_eq_ok, pure_eq_ok, Prod.exists] at h
  obtain ⟨m, r, o, hcheck, r', o', hled, t, h₁, rfl⟩ := h
  obtain ⟨-, hk, hr, hvault, ho⟩ := DebtAccounts.check_ok hcheck
  rw [hvault] at h₁
  exact .borrow ho hk hr (Ledger.borrow_ok hled) h₁

theorem privateBorrow_step {a : PrivateDebtAccounts} {encrypted : SharedAmount}
    (h : w.privateBorrow a amount encrypted = .ok w') :
    Books.Step w.clock w.books [a.reserve] w'.books := by
  simp only [privateBorrow, bind_eq_ok, cpi_eq_ok, pure_eq_ok, Prod.exists] at h
  obtain ⟨m, r, o, hcheck, s, -, r', o', hled, t, h₁, s', -, rfl⟩ := h
  obtain ⟨-, hk, hr, hvault, ho⟩ := DebtAccounts.check_ok hcheck
  rw [hvault] at h₁
  exact .borrow ho hk hr (Ledger.privateBorrow_ok hled) h₁

theorem repay_step {a : DebtAccounts} (h : w.repay a amount = .ok w') :
    Books.Step w.clock w.books [a.reserve] w'.books := by
  simp only [repay, bind_eq_ok, cpi_eq_ok, pure_eq_ok, Prod.exists] at h
  obtain ⟨m, r, o, hcheck, ⟨⟩, -, r', o', hled, t, h₁, rfl⟩ := h
  obtain ⟨hsign, hk, hr, hvault, ho⟩ := DebtAccounts.check_ok hcheck
  rw [hvault] at h₁
  exact .repay ho hk hr hsign hled h₁

theorem settleSeizure_step {gate : Obligation → Result Unit} {a : LiquidationAccounts}
    {m : LendingMarket} {o : Obligation} {s : Ledger.Seizure} (hcheck : a.check w = .ok (m, o))
    (hled : Ledger.seize gate w.clock a.repayReserve a.withdrawReserve w.reserves o amount = .ok s)
    (h : w.settleSeizure a s = .ok w') :
    Books.Step w.clock w.books [a.repayReserve, a.withdrawReserve] w'.books := by
  simp only [settleSeizure, bind_eq_ok, cpi_eq_ok, pure_eq_ok] at h
  obtain ⟨t₁, h₁, t₂, h₂, rfl⟩ := h
  obtain ⟨hsign, ho, -, hvault, hmint, hsupply⟩ := LiquidationAccounts.check_ok hcheck
  rw [hvault] at h₁
  rw [hmint, hsupply] at h₂
  exact .seize ho hsign hled h₁ h₂

theorem liquidate_step {a : LiquidationAccounts} (h : w.liquidate a amount = .ok w') :
    Books.Step w.clock w.books [a.repayReserve, a.withdrawReserve] w'.books := by
  simp only [liquidate, bind_eq_ok, Prod.exists] at h
  obtain ⟨m, o, hcheck, s, hled, h⟩ := h
  exact settleSeizure_step hcheck (Ledger.liquidate_ok hled) h

theorem executePrivateLiquidation_step {a : PrivateLiquidationAccounts}
    (h : w.executePrivateLiquidation a amount = .ok w') :
    Books.Step w.clock w.books [a.repayReserve, a.withdrawReserve] w'.books := by
  simp only [executePrivateLiquidation, bind_eq_ok, pure_eq_ok, Prod.exists] at h
  obtain ⟨m, o, hcheck, s, -, ⟨⟩, -, seizure, hled, v, hsettle, rfl⟩ := h
  have hstep : Books.Step w.clock w.books [a.repayReserve, a.withdrawReserve] v.books :=
    settleSeizure_step hcheck (Ledger.executePrivateLiquidation_ok hled).2 hsettle
  exact hstep

/-- Whatever an instruction does to the books is one of their steps. -/
theorem exec_step {mxe : Mxe} {ix : Instruction} (h : w.exec mxe ix = .ok w') :
    Books.Step w.clock w.books ix.accrued w'.books := by
  cases ix with
  | addReserve => exact addReserve_step h
  | updateReserveConfig => exact updateReserveConfig_step h
  | refreshReserve => exact refreshReserve_step h
  | deposit => exact deposit_step h
  | withdraw => exact withdraw_step h
  | initObligation => exact initObligation_step h
  | refreshObligation => exact refreshObligation_step h
  | depositCollateral => exact depositCollateral_step h
  | privateDepositCollateral => exact privateDepositCollateral_step h
  | withdrawCollateral => exact withdrawCollateral_step h
  | borrow => exact borrow_step h
  | privateBorrow => exact privateBorrow_step h
  | repay => exact repay_step h
  | liquidate => exact liquidate_step h
  | executePrivateLiquidation => exact executePrivateLiquidation_step h
  -- the token program's own instructions touch only wallets
  | openMint =>
      simp only [exec, World.openMint, bind_eq_ok, signer_eq_ok, cpi_eq_ok, exists_const,
        pure_eq_ok] at h
      obtain ⟨hkey, t, ht, rfl⟩ := h
      exact .wallet (.openMint hkey ht)
  | openTokenAccount =>
      simp only [exec, World.openTokenAccount, bind_eq_ok, signer_eq_ok, cpi_eq_ok, exists_const,
        pure_eq_ok] at h
      obtain ⟨hkey, t, ht, rfl⟩ := h
      exact .wallet (.openAccount hkey ht)
  | mintTokens =>
      simp only [exec, World.mintTokens, bind_eq_ok, signer_eq_ok, cpi_eq_ok, exists_const,
        pure_eq_ok] at h
      obtain ⟨hsign, t, ht, rfl⟩ := h
      exact .wallet (.mintTo hsign ht)
  | transferTokens =>
      simp only [exec, World.transferTokens, bind_eq_ok, signer_eq_ok, cpi_eq_ok, exists_const,
        pure_eq_ok] at h
      obtain ⟨hsign, t, ht, rfl⟩ := h
      exact .wallet (.transfer hsign ht)
  | burnTokens =>
      simp only [exec, World.burnTokens, bind_eq_ok, signer_eq_ok, cpi_eq_ok, exists_const,
        pure_eq_ok] at h
      obtain ⟨hsign, t, ht, rfl⟩ := h
      exact .wallet (.burn hsign ht)
  -- the rest changes the market, a private account or the clock, and none of the books
  | initializeMarket =>
      simp only [exec, World.initializeMarket, bind_eq_ok, pure_eq_ok] at h
      obtain ⟨-, -, -, -, -, -, -, -, rfl⟩ := h
      exact .idle
  | setPause =>
      simp only [exec, World.setPause, bind_eq_ok, pure_eq_ok] at h
      obtain ⟨-, -, rfl⟩ := h
      exact .idle
  | updateMarketAuthority =>
      simp only [exec, World.updateMarketAuthority, bind_eq_ok, pure_eq_ok] at h
      obtain ⟨-, -, rfl⟩ := h
      exact .idle
  | initPrivateObligation =>
      simp only [exec, World.initPrivateObligation, bind_eq_ok, pure_eq_ok] at h
      obtain ⟨-, -, -, -, -, -, -, -, rfl⟩ := h
      exact .idle
  | privateCheckLiquidatable =>
      simp only [exec, World.privateCheckLiquidatable, bind_eq_ok, pure_eq_ok] at h
      obtain ⟨-, -, -, -, -, -, -, -, rfl⟩ := h
      exact .idle
  | advanceClock =>
      simp only [exec, World.advanceClock, bind_eq_ok, pure_eq_ok] at h
      obtain ⟨-, -, -, -, rfl⟩ := h
      exact .idle
  | executeComputation =>
      simp only [exec, World.executeComputation, bind_eq_ok, pure_eq_ok] at h
      obtain ⟨-, -, rfl⟩ := h
      exact .idle
  | callback =>
      simp only [exec, World.callback, bind_eq_ok, pure_eq_ok] at h
      obtain ⟨-, -, rfl⟩ := h
      exact .idle
  | abortComputation =>
      simp only [exec, World.abortComputation, bind_eq_ok, pure_eq_ok] at h
      obtain ⟨-, -, rfl⟩ := h
      exact .idle

/-! ## Reserves an instruction does not name -/

theorem settleSeizure_obligations {a : LiquidationAccounts} {s : Ledger.Seizure}
    (h : w.settleSeizure a s = .ok w') :
    w'.obligations = store w.obligations a.obligation s.obligation := by
  simp only [settleSeizure, bind_eq_ok, pure_eq_ok] at h
  obtain ⟨-, -, -, -, rfl⟩ := h
  rfl

theorem settleSeizure_clock {a : LiquidationAccounts} {s : Ledger.Seizure}
    (h : w.settleSeizure a s = .ok w') : w'.clock = w.clock := by
  simp only [settleSeizure, bind_eq_ok, pure_eq_ok] at h
  obtain ⟨-, -, -, -, rfl⟩ := h
  rfl

theorem settleSeizure_reserves {a : LiquidationAccounts} {s : Ledger.Seizure}
    (h : w.settleSeizure a s = .ok w') : w'.reserves = s.reserves := by
  simp only [settleSeizure, bind_eq_ok, pure_eq_ok] at h
  obtain ⟨-, -, -, -, rfl⟩ := h
  rfl

theorem seize_reserves_of_ne {gate : Obligation → Result Unit} {clock : Clock}
    {repayKey withdrawKey k : Pubkey} {reserves : Pubkey → Option Reserve} {o : Obligation}
    {amount : U64} {s : Ledger.Seizure}
    (h : Ledger.seize gate clock repayKey withdrawKey reserves o amount = .ok s)
    (hk : k ∉ [repayKey, withdrawKey]) : s.reserves k = reserves k := by
  obtain ⟨r, r₁, q, q₁, i, o₁, o₂, r₂, r₃, -, -, -, -, -, -, -, -, -, -, hs⟩ := Ledger.seize_ok h
  simp only [List.mem_cons, List.not_mem_nil, or_false, not_or] at hk
  rw [hs, store_of_ne _ _ hk.1, store_of_ne _ _ hk.2, store_of_ne _ _ hk.1]

/-- The reserves an instruction does not name stay as they are. -/
theorem exec_reserves {mxe : Mxe} {ix : Instruction} {k : Pubkey} (h : w.exec mxe ix = .ok w')
    (hk : k ∉ ix.reserves) :
    w'.reserves k = w.reserves k := by
  cases ix with
  | liquidate a amount =>
      simp only [exec, World.liquidate, bind_eq_ok, Prod.exists] at h
      obtain ⟨_, _, -, s, hs, hsettle⟩ := h
      rw [settleSeizure_reserves hsettle]
      exact seize_reserves_of_ne (Ledger.liquidate_ok hs) hk
  | executePrivateLiquidation a amount =>
      simp only [exec, World.executePrivateLiquidation, bind_eq_ok, pure_eq_ok, Prod.exists] at h
      obtain ⟨_, _, -, _, -, _, -, s, hs, v, hsettle, rfl⟩ := h
      show v.reserves k = _
      rw [settleSeizure_reserves hsettle]
      exact seize_reserves_of_ne (Ledger.executePrivateLiquidation_ok hs).2 hk
  | _ =>
      repeat (obtain ⟨_, -, h⟩ := bind_eq_ok.mp h)
      cases h
      first
      | rfl
      | exact store_of_ne _ _ (List.ne_of_not_mem_cons hk)

/-! ## Runs -/

/-- What every successful instruction of a run keeps holds at its end. -/
theorem run_invariant {mxe : Mxe} {Inv : World → Prop} (ixs : List Instruction) (hw : Inv w)
    (hkeep : ∀ ix ∈ ixs, ∀ v v', Inv v → v.exec mxe ix = .ok v' → Inv v') :
    Inv (ixs.foldl (tx mxe) w) := by
  apply foldl_invariant ixs w hw
  intro v ix hix hv
  show Inv (attemptStep (exec mxe) v ix)
  exact attemptStep_invariant hv fun v' h => hkeep ix hix v v' hv h

end World

end VeilVault
