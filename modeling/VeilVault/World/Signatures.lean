/-
# VeilVault.World.Signatures — whose authority an instruction carries.

Each instruction has at most one signer, and lets at most one market sign a token call (`seeds` of a
`CpiContext::new_with_signer`).  What it does to the token ledger is a list of calls with no other
authority (`exec_calls`), so whatever holds of such calls holds of every run: an account whose
authority signs nothing is never charged, and no accounts of a mint hold more than was issued.
-/
import VeilVault.Kit.TokenCalls
import VeilVault.World.Vaults

namespace VeilVault

open Kit

namespace Instruction

/-- `Signer<'info>`, where there is one. -/
def signer : Instruction → Option Pubkey
  | .initializeMarket owner _ _ => some owner
  | .setPause owner _ _ => some owner
  | .updateMarketAuthority owner _ _ => some owner
  | .addReserve a _ => some a.owner
  | .updateReserveConfig owner _ _ _ _ => some owner
  | .refreshReserve _ _ _ _ => none
  | .deposit a _ => some a.depositor
  | .withdraw a _ => some a.depositor
  | .initObligation owner _ _ => some owner
  | .refreshObligation _ _ _ => none
  | .depositCollateral a _ => some a.depositor
  | .withdrawCollateral a _ => some a.depositor
  | .borrow a _ => some a.borrower
  | .repay a _ => some a.borrower
  | .liquidate a _ => some a.liquidator
  | .initPrivateObligation payer _ _ => some payer
  | .privateDepositCollateral a _ _ => some a.depositor
  | .privateBorrow a _ _ => some a.borrower
  | .privateCheckLiquidatable liquidator _ _ _ _ _ _ _ => some liquidator
  | .executePrivateLiquidation a _ => some a.liquidator
  | .advanceClock _ => none
  | .executeComputation _ _ _ => none
  | .callback _ _ => none
  | .abortComputation _ _ _ => none
  | .openMint key _ => some key
  | .openTokenAccount key _ _ => some key
  | .mintTokens _ _ authority _ => some authority
  | .transferTokens _ _ _ authority _ => some authority
  | .burnTokens _ _ authority _ => some authority

/-- The market that pays out of its vaults or issues cTokens. -/
def signingMarket : Instruction → Option Pubkey
  | .deposit a _ => some a.lendingMarket
  | .withdraw a _ => some a.lendingMarket
  | .withdrawCollateral a _ => some a.lendingMarket
  | .borrow a _ => some a.lendingMarket
  | .privateBorrow a _ _ => some a.lendingMarket
  | .liquidate a _ => some a.lendingMarket
  | .executePrivateLiquidation a _ => some a.lendingMarket
  | _ => none

/-- The authorities of the instruction's token calls. -/
def signed (ix : Instruction) (k : Pubkey) : Prop := ix.signer = some k ∨ ix.signingMarket = some k

end Instruction

namespace World

variable {mxe : Mxe} {w w' : World} {ix : Instruction} {k : Pubkey}

theorem market_ok {m : LendingMarket} (h : w.market k = .ok m) :
    w.markets k = some m ∧ k = .lendingMarket m.owner := by
  simp only [market, bind_eq_ok, load_eq_ok, seeds_eq_ok, exists_const, pure_eq_ok] at h
  obtain ⟨m', hm, hkey, rfl⟩ := h
  exact ⟨hm, hkey⟩

/-- The owner's check includes everybody's. -/
theorem market_of_owned {owner : Pubkey} {m : LendingMarket} (h : w.ownedMarket owner k = .ok m) :
    w.market k = .ok m := by
  obtain ⟨-, hm, hkey, howner⟩ := ownedMarket_eq_ok.mp h
  simp only [market, bind_eq_ok, load_eq_ok, seeds_eq_ok, exists_const, pure_eq_ok]
  exact ⟨m, hm, by rw [howner, hkey], rfl⟩

/-! ## Signers are wallets -/

theorem wallet_of_owned {owner : Pubkey} {m : LendingMarket} (h : w.ownedMarket owner k = .ok m) :
    owner.isWallet = true := (ownedMarket_eq_ok.mp h).1

theorem LiquidityAccounts.wallet {a : LiquidityAccounts} {p : LendingMarket × Reserve}
    (h : a.check w = .ok p) : a.depositor.isWallet = true := by
  simp only [LiquidityAccounts.check, bind_eq_ok, signer_eq_ok, exists_const] at h
  exact h.1

theorem CollateralAccounts.wallet {a : CollateralAccounts}
    {p : LendingMarket × Reserve × Obligation} (h : a.check w = .ok p) :
    a.depositor.isWallet = true := by
  simp only [CollateralAccounts.check, bind_eq_ok, signer_eq_ok, exists_const] at h
  exact h.1

theorem DebtAccounts.wallet {a : DebtAccounts} {p : LendingMarket × Reserve × Obligation}
    (h : a.check w = .ok p) : a.borrower.isWallet = true := by
  simp only [DebtAccounts.check, bind_eq_ok, signer_eq_ok, exists_const] at h
  exact h.1

theorem LiquidationAccounts.wallet {a : LiquidationAccounts} {p : LendingMarket × Obligation}
    (h : a.check w = .ok p) : a.liquidator.isWallet = true := by
  simp only [LiquidationAccounts.check, bind_eq_ok, signer_eq_ok, exists_const] at h
  exact h.1

/-- Whoever signs a successful instruction is no derived address. -/
theorem exec_signer (h : w.exec mxe ix = .ok w') (hk : ix.signer = some k) :
    k.isWallet = true := by
  cases ix with
  | setPause | updateMarketAuthority | addReserve | updateReserveConfig =>
      cases hk
      obtain ⟨m, hm, -⟩ := bind_eq_ok.mp h
      exact wallet_of_owned hm
  | deposit | withdraw =>
      cases hk
      obtain ⟨p, hcheck, -⟩ := bind_eq_ok.mp h
      exact LiquidityAccounts.wallet hcheck
  | depositCollateral | withdrawCollateral | privateDepositCollateral =>
      cases hk
      obtain ⟨p, hcheck, -⟩ := bind_eq_ok.mp h
      exact CollateralAccounts.wallet hcheck
  | borrow | repay | privateBorrow =>
      cases hk
      obtain ⟨p, hcheck, -⟩ := bind_eq_ok.mp h
      exact DebtAccounts.wallet hcheck
  | liquidate | executePrivateLiquidation =>
      cases hk
      obtain ⟨p, hcheck, -⟩ := bind_eq_ok.mp h
      exact LiquidationAccounts.wallet hcheck
  | initializeMarket | initObligation | initPrivateObligation | privateCheckLiquidatable | openMint
  | openTokenAccount | mintTokens | transferTokens | burnTokens =>
      cases hk
      obtain ⟨u, hsign, -⟩ := bind_eq_ok.mp h
      exact signer_eq_ok.mp hsign
  | refreshReserve | refreshObligation | advanceClock | executeComputation | callback
  | abortComputation => cases hk

/-! ## The calls of each instruction -/

theorem settleSeizure_calls {signed : Pubkey → Prop} {a : LiquidationAccounts} {s : Ledger.Seizure}
    (hsign : signed a.liquidator) (hmarket : signed a.lendingMarket)
    (h : w.settleSeizure a s = .ok w') : TokenLedger.Calls signed w.tokens w'.tokens := by
  simp only [settleSeizure, bind_eq_ok, cpi_eq_ok, pure_eq_ok] at h
  obtain ⟨t₁, h₁, t₂, h₂, rfl⟩ := h
  exact .tail (.single (.transfer hsign h₁)) (.transfer hmarket h₂)

/-- An instruction moves tokens by calls of its signer and its market. -/
theorem exec_calls (h : w.exec mxe ix = .ok w') :
    TokenLedger.Calls ix.signed w.tokens w'.tokens := by
  have huser (u : Pubkey) (hu : ix.signer = some u) : ix.signed u := .inl hu
  have hmarket (m : Pubkey) (hm : ix.signingMarket = some m) : ix.signed m := .inr hm
  cases ix with
  | addReserve a config =>
      simp only [exec, World.addReserve, bind_eq_ok, cpi_eq_ok, pure_eq_ok] at h
      obtain ⟨-, -, -, -, -, -, -, -, -, -, t₁, h₁, -, -, t₂, h₂, -, -, t₃, h₃, -, -, t₄, h₄, -, -,
        rfl⟩ := h
      exact .tail (.tail (.tail (.single (.openAccount h₁)) (.openAccount h₂)) (.openMint h₃))
        (.openAccount h₄)
  | deposit a amount =>
      simp only [exec, World.deposit, bind_eq_ok, cpi_eq_ok, pure_eq_ok, Prod.exists] at h
      obtain ⟨-, -, -, -, c, -, t₁, h₁, t₂, h₂, rfl⟩ := h
      exact .tail (.single (.transfer (huser _ rfl) h₁)) (.mintTo (hmarket _ rfl) h₂)
  | withdraw a amount =>
      simp only [exec, World.withdraw, bind_eq_ok, cpi_eq_ok, pure_eq_ok, Prod.exists] at h
      obtain ⟨-, -, -, -, l, -, t₁, h₁, t₂, h₂, rfl⟩ := h
      exact .tail (.single (.burn (huser _ rfl) h₁)) (.transfer (hmarket _ rfl) h₂)
  | depositCollateral a amount =>
      simp only [exec, World.depositCollateral, bind_eq_ok, cpi_eq_ok, pure_eq_ok, Prod.exists] at h
      obtain ⟨-, -, -, -, -, -, t, h₁, rfl⟩ := h
      exact .single (.transfer (huser _ rfl) h₁)
  | privateDepositCollateral a amount encrypted =>
      simp only [exec, World.privateDepositCollateral, bind_eq_ok, cpi_eq_ok, pure_eq_ok,
        Prod.exists] at h
      obtain ⟨-, -, -, -, -, -, -, -, -, -, t, h₁, -, -, rfl⟩ := h
      exact .single (.transfer (huser _ rfl) h₁)
  | withdrawCollateral a amount =>
      simp only [exec, World.withdrawCollateral, bind_eq_ok, cpi_eq_ok, pure_eq_ok,
        Prod.exists] at h
      obtain ⟨-, -, -, -, -, -, t, h₁, rfl⟩ := h
      exact .single (.transfer (hmarket _ rfl) h₁)
  | borrow a amount =>
      simp only [exec, World.borrow, bind_eq_ok, cpi_eq_ok, pure_eq_ok, Prod.exists] at h
      obtain ⟨-, -, -, -, -, -, -, t, h₁, rfl⟩ := h
      exact .single (.transfer (hmarket _ rfl) h₁)
  | privateBorrow a amount encrypted =>
      simp only [exec, World.privateBorrow, bind_eq_ok, cpi_eq_ok, pure_eq_ok, Prod.exists] at h
      obtain ⟨-, -, -, -, -, -, -, -, -, t, h₁, -, -, rfl⟩ := h
      exact .single (.transfer (hmarket _ rfl) h₁)
  | repay a amount =>
      simp only [exec, World.repay, bind_eq_ok, cpi_eq_ok, pure_eq_ok, Prod.exists] at h
      obtain ⟨-, -, -, -, -, -, -, -, -, t, h₁, rfl⟩ := h
      exact .single (.transfer (huser _ rfl) h₁)
  | liquidate a amount =>
      simp only [exec, World.liquidate, bind_eq_ok, Prod.exists] at h
      obtain ⟨-, -, -, s, -, h⟩ := h
      exact settleSeizure_calls (huser _ rfl) (hmarket _ rfl) h
  | executePrivateLiquidation a amount =>
      simp only [exec, World.executePrivateLiquidation, bind_eq_ok, pure_eq_ok, Prod.exists] at h
      obtain ⟨-, -, -, -, -, -, -, s, -, v, hsettle, rfl⟩ := h
      have hcalls : TokenLedger.Calls _ w.tokens v.tokens :=
        settleSeizure_calls (huser _ rfl) (hmarket _ rfl) hsettle
      exact hcalls
  | openMint key authority =>
      simp only [exec, World.openMint, bind_eq_ok, cpi_eq_ok, pure_eq_ok] at h
      obtain ⟨-, -, t, h₁, rfl⟩ := h
      exact .single (.openMint h₁)
  | openTokenAccount key mint authority =>
      simp only [exec, World.openTokenAccount, bind_eq_ok, cpi_eq_ok, pure_eq_ok] at h
      obtain ⟨-, -, t, h₁, rfl⟩ := h
      exact .single (.openAccount h₁)
  | mintTokens mint destination authority amount =>
      simp only [exec, World.mintTokens, bind_eq_ok, cpi_eq_ok, pure_eq_ok] at h
      obtain ⟨-, -, t, h₁, rfl⟩ := h
      exact .single (.mintTo (huser _ rfl) h₁)
  | transferTokens source mint destination authority amount =>
      simp only [exec, World.transferTokens, bind_eq_ok, cpi_eq_ok, pure_eq_ok] at h
      obtain ⟨-, -, t, h₁, rfl⟩ := h
      exact .single (.transfer (huser _ rfl) h₁)
  | burnTokens mint source authority amount =>
      simp only [exec, World.burnTokens, bind_eq_ok, cpi_eq_ok, pure_eq_ok] at h
      obtain ⟨-, -, t, h₁, rfl⟩ := h
      exact .single (.burn (huser _ rfl) h₁)
  -- no other instruction calls the token program
  | _ =>
      have hsame : w'.tokens = w.tokens := by
        repeat (obtain ⟨_, -, h⟩ := bind_eq_ok.mp h)
        cases h
        rfl
      rw [hsame]

end World

end VeilVault
