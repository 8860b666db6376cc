/-
# VeilVault.World.FlashLoan — a loan repaid in its own slot.

Nothing stops a user from borrowing and repaying in one transaction.  It costs nothing and leaves
nothing: the repayment is accepted, and the world is the one before the loan, except that the
reserve, and the debt there already was in it, have accrued (`repay_undoes_borrow`).
-/
import VeilVault.Ledger.Undoing
import VeilVault.World.Simulation

namespace VeilVault

open Kit

theorem store_store {α : Type} (accounts : Pubkey → Option α) (key : Pubkey) (a b : α) :
    store (store accounts key a) key b = store accounts key b := by
  funext k
  by_cases hk : k = key
  · rw [hk, store_self, store_self]
  · rw [store_of_ne _ _ hk, store_of_ne _ _ hk, store_of_ne _ _ hk]

namespace World

/-- A loan paid to the borrower's own account, and repaid from it in the same slot, comes to an
accrual: of the reserve, and of the debt there already was in it. -/
theorem repay_undoes_borrow (mxe : Mxe) (clock : Clock) (ixs : List Instruction) (w w₁ : World)
    (a : DebtAccounts) (amount : U64) (hrun : ixs.foldl (tx mxe) (genesis clock) = w)
    (hown : w.ownTokenAccount a.userTokenAccount a.reserveMint a.borrower = .ok ())
    (h : w.borrow a amount = .ok w₁) :
    ∃ r r₁ o o₁, w.reserves a.reserve = some r ∧ r.accrueInterest w.clock.slot = .ok r₁ ∧
      w.obligations a.obligation = some o ∧
      o.accrueExisting a.reserve r₁.liquidity.cumulativeBorrowRateSf = .ok o₁ ∧
      w₁.repay a amount = .ok { w with
        reserves := store w.reserves a.reserve r₁
        obligations := store w.obligations a.obligation o₁ } := by
  have ht : w.Tidy := hrun ▸ tidy_run mxe clock ixs
  simp only [World.borrow, bind_eq_ok, cpi_eq_ok, pure_eq_ok, Prod.exists] at h
  obtain ⟨m, r, o, hcheck, r', o', hled, t, hpay, rfl⟩ := h
  obtain ⟨hin, ho, -⟩ := DebtAccounts.check_names hcheck
  obtain ⟨r₁, o₁, hacc, hexist, hrepay⟩ := Ledger.repay_borrow (ht _ _ ho) hin.ne_default hled
  refine ⟨r, r₁, o, o₁, hin.reserve, hacc, ho, hexist, ?_⟩
  have hc := DebtAccounts.check_eq_ok.mp hcheck
  obtain ⟨u, hu, hmint, hauthority⟩ := ownTokenAccount_eq_ok.mp hown
  -- the market's vault is not the borrower's account
  have hne : a.liquidityVault ≠ a.userTokenAccount := by
    intro he
    have hsigned := (TokenLedger.transfer_ok hpay).1
    rw [he, TokenLedger.authorityOf_of hu, hauthority] at hsigned
    have hmarket := (market_ok hc.market).2
    rw [← Option.some.inj hsigned] at hmarket
    have hsign := hc.wallet
    rw [hmarket] at hsign
    cases hsign
  have hback := TokenLedger.transfer_back hne hu hpay
  rw [hauthority] at hback
  obtain ⟨-, -, hkeeps, hmints⟩ := TokenLedger.transfer_records hpay
  obtain ⟨n, hu'⟩ := hkeeps _ u hu
  simp only [World.repay, bind_eq_ok, cpi_eq_ok, pure_eq_ok, Prod.exists, ownTokenAccount_eq_ok,
    exists_const, DebtAccounts.check_eq_ok]
  refine ⟨m, r', o', ?_, ⟨_, hu', hmint, hauthority⟩, r₁, o₁, hrepay, w.tokens, hback, ?_⟩
  · exact { hc with
      obligation := store_self _ _ _
      reserve := store_self _ _ _
      mint := hmints ▸ hc.mint
      user := ⟨_, hu', hmint⟩ }
  · rw [store_store, store_store]

/-- A second loan, beside one that is five hundred thousand slots old. -/
def ageingWorld : World :=
  (joinedRun ++ [.borrow (debtOf 1) 1000, .advanceClock ⟨500000, 0⟩, refreshPool 0,
    .refreshObligation poolMarket (.obligation poolMarket (.key 1)) [usdReserve]]).foldl
    (tx plainMxe) (genesis ⟨0, 0⟩)

theorem repay_undoes_borrow_ageing : ∃ w₁ r₁ o₁,
    ageingWorld.borrow (debtOf 1) 200 = .ok w₁ ∧
      w₁.repay (debtOf 1) 200 = .ok { ageingWorld with
        reserves := store ageingWorld.reserves usdReserve r₁
        obligations := store ageingWorld.obligations (.obligation poolMarket (.key 1)) o₁ } := by
  have hok : (ageingWorld.borrow (debtOf 1) 200).isOk = true := by decide +kernel
  have hown : (ageingWorld.ownTokenAccount (debtOf 1).userTokenAccount (debtOf 1).reserveMint
      (debtOf 1).borrower).isOk = true := by decide +kernel
  cases h : ageingWorld.borrow (debtOf 1) 200 with
  | error e =>
      rw [h] at hok
      cases hok
  | ok w₁ =>
      cases hu : ageingWorld.ownTokenAccount (debtOf 1).userTokenAccount (debtOf 1).reserveMint
        (debtOf 1).borrower with
      | error e =>
          rw [hu] at hown
          cases hown
      | ok u =>
          obtain ⟨r, r₁, o, o₁, -, -, -, -, hrepay⟩ := repay_undoes_borrow plainMxe ⟨0, 0⟩ _
            ageingWorld w₁ (debtOf 1) 200 rfl hu h
          exact ⟨w₁, r₁, o₁, rfl, hrepay⟩

end World

end VeilVault
