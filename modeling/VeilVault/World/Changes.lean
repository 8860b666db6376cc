/-
# VeilVault.World.Changes — what an instruction's accounts say about what it changes.

`Books.Step` tells what happens to reserves, obligations and tokens, and forgets on whose behalf.
Here the constraints come back: which market an instruction names, who signed it, how the addresses
of its reserve and its obligation are made from those, and what the handler checked before it wrote.
`exec_obligation` and `exec_reserve` take every instruction apart once more for that; whatever
depends on authority, on the pause switch or on a reserve's status is a case analysis over
`ObligationChange` and `ReserveChange`.
-/
import VeilVault.World.Signatures

namespace VeilVault

open Kit

/-- The `lending_market` account, where there is one. -/
def Instruction.lendingMarket : Instruction → Option Pubkey
  | .initializeMarket _ key _ => some key
  | .setPause _ key _ => some key
  | .updateMarketAuthority _ key _ => some key
  | .addReserve a _ => some a.lendingMarket
  | .updateReserveConfig _ market _ _ _ => some market
  | .refreshReserve market _ _ _ => some market
  | .deposit a _ => some a.lendingMarket
  | .withdraw a _ => some a.lendingMarket
  | .initObligation _ market _ => some market
  | .refreshObligation market _ _ => some market
  | .depositCollateral a _ => some a.lendingMarket
  | .withdrawCollateral a _ => some a.lendingMarket
  | .borrow a _ => some a.lendingMarket
  | .repay a _ => some a.lendingMarket
  | .liquidate a _ => some a.lendingMarket
  | .initPrivateObligation _ market _ => some market
  | .privateDepositCollateral a _ _ => some a.lendingMarket
  | .privateBorrow a _ _ => some a.lendingMarket
  | .privateCheckLiquidatable _ market _ _ _ _ _ _ => some market
  | .executePrivateLiquidation a _ => some a.lendingMarket
  | _ => none

namespace World

/-- A live market and one of its reserves. -/
structure InMarket (w : World) (M k : Pubkey) (m : LendingMarket) (r : Reserve) : Prop where
  market : w.market M = .ok m
  reserve : w.reserves k = some r
  key : ∃ mint, k = .reserve M mint

/-- The key of a reserve does not mark a slot free. -/
theorem InMarket.ne_default {w : World} {M k : Pubkey} {m : LendingMarket} {r : Reserve}
    (h : w.InMarket M k m r) : k ≠ default := by
  obtain ⟨mint, hk⟩ := h.key
  exact Pubkey.ne_default (not_wallet_of_seeds hk)

/-- A user's instruction on one reserve and on the user's own obligation `x`. -/
structure Own (w : World) (ix : Instruction) (x M user k : Pubkey) (m : LendingMarket)
    (r : Reserve) : Prop extends InMarket w M k m r where
  lendingMarket : ix.lendingMarket = some M
  signer : ix.signer = some user
  obligation : x = .obligation M user

/-- A liquidation of an obligation of the market, at two of its reserves. -/
structure Seizing (w : World) (ix : Instruction) (x M repayKey withdrawKey : Pubkey)
    (m : LendingMarket) (o : Obligation) : Prop where
  lendingMarket : ix.lendingMarket = some M
  market : w.market M = .ok m
  unpaused : m.isPaused = false
  obligation : w.obligations x = some o
  obligationIn : o.lendingMarket = M
  repayIn : ∃ r, w.reserves repayKey = some r ∧ r.lendingMarket = M
  withdrawIn : ∃ r, w.reserves withdrawKey = some r ∧ r.lendingMarket = M

end World

/-! ## The constraints, read backwards -/

section Checks

variable {w : World} {m : LendingMarket} {r : Reserve} {o : Obligation}

/-- A token account of the mint and its authority. -/
def World.Owns (w : World) (authority key mint : Pubkey) : Prop :=
  ∃ d, w.tokens.accounts key = some d ∧ d.mint = mint ∧ d.authority = authority

theorem World.Owns.authorityOf {authority key mint : Pubkey} (h : w.Owns authority key mint) :
    w.tokens.authorityOf key = some authority := by
  obtain ⟨d, hd, -, hauth⟩ := h
  rw [TokenLedger.authorityOf_of hd, hauth]

theorem World.ownTokenAccount_eq_ok {authority key mint : Pubkey} {u : Unit} :
    w.ownTokenAccount key mint authority = .ok u ↔ w.Owns authority key mint := by
  simp only [ownTokenAccount, bind_eq_ok, load_eq_ok, constrain_eq_ok, exists_const, Owns]

theorem World.tokenAccount_eq_ok {key mint : Pubkey} {u : Unit} :
    w.tokenAccount key mint = .ok u ↔ ∃ d, w.tokens.accounts key = some d ∧ d.mint = mint := by
  simp only [tokenAccount, bind_eq_ok, load_eq_ok, constrain_eq_ok]

/-- What a deposit and a withdrawal have checked. -/
structure LiquidityAccounts.Checked (a : LiquidityAccounts) (w : World) (m : LendingMarket)
    (r : Reserve) : Prop where
  market : w.market a.lendingMarket = .ok m
  reserve : w.reserves a.reserve = some r
  key : a.reserve = .reserve a.lendingMarket a.reserveMint
  liquidityVault : a.liquidityVault = .liquidityVault a.reserve
  collateralMint : a.collateralMint = .collateralMint a.reserve
  user : w.Owns a.depositor a.userTokenAccount a.reserveMint
  collateral : w.Owns a.depositor a.userCollateralAccount a.collateralMint

theorem LiquidityAccounts.checked {a : LiquidityAccounts} (h : a.check w = .ok (m, r)) :
    a.Checked w m r := by
  simp only [check, bind_eq_ok, signer_eq_ok, seeds_eq_ok, World.ownTokenAccount_eq_ok,
    exists_const, pure_eq_ok, Prod.mk.injEq] at h
  obtain ⟨-, m', hm, r', hr, hvault, hmint, huser, hcollateral, rfl, rfl⟩ := h
  have hr' := World.reserveOf_ok hr
  exact ⟨hm, hr'.1, hr'.2, hvault, hmint, huser, hcollateral⟩

theorem LiquidityAccounts.check_names {a : LiquidityAccounts} (h : a.check w = .ok (m, r)) :
    w.InMarket a.lendingMarket a.reserve m r := by
  have hc := checked h
  exact ⟨hc.market, hc.reserve, _, hc.key⟩

/-- What a deposit and a withdrawal of collateral have checked. -/
structure CollateralAccounts.Checked (a : CollateralAccounts) (w : World) (m : LendingMarket)
    (r : Reserve) (o : Obligation) : Prop where
  market : w.market a.lendingMarket = .ok m
  reserve : w.reserves a.reserve = some r
  key : a.reserve = .reserve a.lendingMarket a.reserveMint
  collateralMint : a.collateralMint = .collateralMint a.reserve
  collateral : w.Owns a.depositor a.userCollateralAccount a.collateralMint
  supplyVault : a.collateralSupplyVault = .collateralSupply a.reserve
  obligation : w.obligations a.obligation = some o
  obligationKey : a.obligation = .obligation a.lendingMarket a.depositor

theorem CollateralAccounts.checked {a : CollateralAccounts} (h : a.check w = .ok (m, r, o)) :
    a.Checked w m r o := by
  simp only [check, bind_eq_ok, signer_eq_ok, seeds_eq_ok, World.ownTokenAccount_eq_ok,
    exists_const, pure_eq_ok, Prod.mk.injEq] at h
  obtain ⟨-, m', hm, r', hr, hmint, hcollateral, hvault, o', ho, rfl, rfl, rfl⟩ := h
  have hr' := World.reserveOf_ok hr
  have ho' := World.obligationOf_ok ho
  exact ⟨hm, hr'.1, hr'.2, hmint, hcollateral, hvault, ho'.1, ho'.2⟩

theorem CollateralAccounts.check_names {a : CollateralAccounts} (h : a.check w = .ok (m, r, o)) :
    w.InMarket a.lendingMarket a.reserve m r ∧ w.obligations a.obligation = some o ∧
      a.obligation = .obligation a.lendingMarket a.depositor := by
  have hc := checked h
  exact ⟨⟨hc.market, hc.reserve, _, hc.key⟩, hc.obligation, hc.obligationKey⟩

/-- What a loan and a repayment have checked, and all they have to: the account that is paid, or
pays, can be anybody's. -/
structure DebtAccounts.Checked (a : DebtAccounts) (w : World) (m : LendingMarket) (r : Reserve)
    (o : Obligation) : Prop where
  wallet : a.borrower.isWallet = true
  market : w.market a.lendingMarket = .ok m
  obligation : w.obligations a.obligation = some o
  obligationKey : a.obligation = .obligation a.lendingMarket a.borrower
  reserve : w.reserves a.reserve = some r
  key : a.reserve = .reserve a.lendingMarket a.reserveMint
  mint : ∃ c, w.tokens.mints a.reserveMint = some c
  liquidityVault : a.liquidityVault = .liquidityVault a.reserve
  user : ∃ d, w.tokens.accounts a.userTokenAccount = some d ∧ d.mint = a.reserveMint

theorem DebtAccounts.check_eq_ok {a : DebtAccounts} :
    a.check w = .ok (m, r, o) ↔ a.Checked w m r o := by
  simp only [check, World.obligationOf, World.reserveOf, World.tokenAccount_eq_ok, bind_eq_ok,
    signer_eq_ok, seeds_eq_ok, load_eq_ok, exists_const, pure_eq_ok, Prod.mk.injEq]
  constructor
  · rintro ⟨hsign, m', hm, o', ⟨p, ho, hx, rfl⟩, r', ⟨q, hr, hk, c, hc, rfl⟩, hv, huser, rfl, rfl,
      rfl⟩
    exact ⟨hsign, hm, ho, hx, hr, hk, ⟨c, hc⟩, hv, huser⟩
  · rintro ⟨hsign, hm, ho, hx, hr, hk, ⟨c, hc⟩, hv, huser⟩
    exact ⟨hsign, m, hm, o, ⟨o, ho, hx, rfl⟩, r, ⟨r, hr, hk, c, hc, rfl⟩, hv, huser, rfl, rfl, rfl⟩

theorem DebtAccounts.check_names {a : DebtAccounts} (h : a.check w = .ok (m, r, o)) :
    w.InMarket a.lendingMarket a.reserve m r ∧ w.obligations a.obligation = some o ∧
      a.obligation = .obligation a.lendingMarket a.borrower := by
  have hc := check_eq_ok.mp h
  exact ⟨⟨hc.market, hc.reserve, _, hc.key⟩, hc.obligation, hc.obligationKey⟩

/-- What both liquidations have checked: the two reserves and the obligation are of one market, and
no more is known of the accounts that the liquidator names. -/
structure LiquidationAccounts.Checked (a : LiquidationAccounts) (w : World) (m : LendingMarket)
    (o : Obligation) : Prop where
  market : w.market a.lendingMarket = .ok m
  obligation : w.obligations a.obligation = some o
  obligationIn : o.lendingMarket = a.lendingMarket
  repayIn : ∃ r, w.reserves a.repayReserve = some r ∧ r.lendingMarket = a.lendingMarket
  withdrawIn : ∃ r, w.reserves a.withdrawReserve = some r ∧ r.lendingMarket = a.lendingMarket
  collateralMint : a.withdrawCollateralMint = .collateralMint a.withdrawReserve
  supplyVault : a.collateralSupplyVault = .collateralSupply a.withdrawReserve
  collateral : ∃ d, w.tokens.accounts a.liquidatorCollateralAccount = some d ∧
    d.mint = a.withdrawCollateralMint

theorem LiquidationAccounts.checked {a : LiquidationAccounts} (h : a.check w = .ok (m, o)) :
    a.Checked w m o := by
  simp only [check, bind_eq_ok, signer_eq_ok, seeds_eq_ok, load_eq_ok, World.tokenAccount_eq_ok,
    exists_const, pure_eq_ok, Prod.mk.injEq] at h
  obtain ⟨-, m', hm, o', ho, r, hr, -, -, -, -, q, hq, hmint, hsupply, hcollateral, rfl, rfl⟩ := h
  have ho' := World.obligationIn_ok ho
  exact ⟨hm, ho'.1, ho'.2, ⟨r, World.reserveIn_ok hr⟩, ⟨q, World.reserveIn_ok hq⟩, hmint, hsupply,
    hcollateral⟩

theorem LiquidationAccounts.check_names {a : LiquidationAccounts} (h : a.check w = .ok (m, o)) :
    w.market a.lendingMarket = .ok m ∧ w.obligations a.obligation = some o ∧
      o.lendingMarket = a.lendingMarket ∧
      (∃ r, w.reserves a.repayReserve = some r ∧ r.lendingMarket = a.lendingMarket) ∧
      ∃ r, w.reserves a.withdrawReserve = some r ∧ r.lendingMarket = a.lendingMarket := by
  have hc := checked h
  exact ⟨hc.market, hc.obligation, hc.obligationIn, hc.repayIn, hc.withdrawIn⟩

end Checks

namespace Ledger

variable {market : LendingMarket} {clock : Clock} {k : Pubkey} {r r' : Reserve} {o o' : Obligation}
  {a : U64}

/-! ## The pause switch and the status -/

theorem deposit_switches {c : U64} (h : deposit market clock r a = .ok (r', c)) :
    market.isPaused = false ∧ r.config.isActive = true := by
  simp only [deposit, bind_eq_ok, require_eq_ok, exists_const] at h
  exact ⟨h.1, h.2.2.1⟩

theorem withdraw_switches {l : U64} (h : withdraw market clock r a = .ok (r', l)) :
    market.isPaused = false ∧ r.config.isActive = true := by
  simp only [withdraw, bind_eq_ok, require_eq_ok, exists_const] at h
  exact ⟨h.1, h.2.2.1⟩

theorem borrow_switches (h : borrow market clock k r o a = .ok (r', o')) :
    market.isPaused = false ∧ r.config.isActive = true := by
  simp only [borrow, bind_eq_ok, require_eq_ok, exists_const] at h
  exact ⟨h.1, h.2.2.1⟩

theorem privateBorrow_switches {init : Bool}
    (h : privateBorrow market init clock k r o a = .ok (r', o')) :
    market.isPaused = false ∧ r.config.isActive = true := by
  simp only [privateBorrow, bind_eq_ok, require_eq_ok, exists_const] at h
  exact ⟨h.2.2.1, h.2.2.2.1⟩

theorem depositCollateral_switches (h : depositCollateral market k r o a = .ok o') :
    market.isPaused = false ∧ r.config.isActive = true := by
  simp only [depositCollateral, bind_eq_ok, require_eq_ok, exists_const] at h
  exact ⟨h.1, h.2.2.1⟩

theorem privateDepositCollateral_switches {init : Bool}
    (h : privateDepositCollateral market init k r o a = .ok o') :
    market.isPaused = false ∧ r.config.isActive = true := by
  simp only [privateDepositCollateral, bind_eq_ok, require_eq_ok, exists_const] at h
  exact ⟨h.2.2.1, h.2.2.2.1⟩

theorem withdrawCollateral_unpaused (h : withdrawCollateral market clock k o a = .ok o') :
    market.isPaused = false := by
  simp only [withdrawCollateral, bind_eq_ok, require_eq_ok, exists_const] at h
  exact h.1

theorem repay_active (h : repay clock k r o a = .ok (r', o')) : r.config.isActive = true := by
  simp only [repay, bind_eq_ok, require_eq_ok, exists_const] at h
  exact h.2.1

variable {repayKey withdrawKey : Pubkey} {reserves : Pubkey → Option Reserve} {s : Seizure}

theorem liquidate_unpaused
    (h : liquidate market clock repayKey withdrawKey reserves o a = .ok s) :
    market.isPaused = false := by
  simp only [liquidate, bind_eq_ok, require_eq_ok, exists_const] at h
  exact h.1

theorem executePrivateLiquidation_unpaused {flag : Bool}
    (h : executePrivateLiquidation market flag clock repayKey withdrawKey reserves o a = .ok s) :
    market.isPaused = false := by
  simp only [executePrivateLiquidation, bind_eq_ok, require_eq_ok, exists_const] at h
  exact h.1

/-- Both reserves of a seizure are active when it begins. -/
theorem seize_active {gate : Obligation → Result Unit}
    (h : seize gate clock repayKey withdrawKey reserves o a = .ok s) :
    (∀ r, reserves repayKey = some r → r.config.isActive = true) ∧
      ∀ q, reserves withdrawKey = some q → q.config.isActive = true := by
  simp only [seize, accruePriced, bind_eq_ok, load_eq_ok, require_eq_ok, exists_const] at h
  obtain ⟨r, hr, r₁, ⟨hactive, r₁', hacc, -, hr₁⟩, q, hq, -, ⟨hqactive, -⟩, -⟩ := h
  rw [pure_eq_ok] at hr₁
  subst hr₁
  have hrepay (p : Reserve) (hp : reserves repayKey = some p) : p.config.isActive = true := by
    cases hr.symm.trans hp
    exact hactive
  refine ⟨hrepay, fun p hp => ?_⟩
  by_cases hk : withdrawKey = repayKey
  · exact hrepay p (hk ▸ hp)
  · rw [store_of_ne _ _ hk] at hq
    cases hq.symm.trans hp
    exact hqactive

end Ledger

/-! ## Changes -/

namespace World

/-- All but two instructions check that the market they name is at its owner's address. -/
theorem exec_checks_market {mxe : Mxe} {w w' : World} {ix : Instruction} {M : Pubkey}
    (h : w.exec mxe ix = .ok w') (hM : ix.lendingMarket = some M) :
    (∃ owner fee, ix = .initializeMarket owner M fee) ∨
      (∃ x accounts, ix = .refreshObligation M x accounts) ∨ ∃ m, w.market M = .ok m := by
  cases ix with
  | initializeMarket owner key fee =>
      cases hM
      exact .inl ⟨owner, fee, rfl⟩
  | refreshObligation market key accounts =>
      cases hM
      exact .inr (.inl ⟨key, accounts, rfl⟩)
  | setPause | updateMarketAuthority | addReserve | updateReserveConfig =>
      cases hM
      obtain ⟨m, hm, -⟩ := bind_eq_ok.mp h
      exact .inr (.inr ⟨m, market_of_owned hm⟩)
  | refreshReserve =>
      cases hM
      obtain ⟨m, hm, -⟩ := bind_eq_ok.mp h
      exact .inr (.inr ⟨m, hm⟩)
  | deposit | withdraw =>
      cases hM
      obtain ⟨⟨m, r⟩, hcheck, -⟩ := bind_eq_ok.mp h
      exact .inr (.inr ⟨m, (LiquidityAccounts.check_names hcheck).market⟩)
  | initObligation | initPrivateObligation | privateCheckLiquidatable =>
      cases hM
      obtain ⟨u, -, h⟩ := bind_eq_ok.mp h
      obtain ⟨m, hm, -⟩ := bind_eq_ok.mp h
      exact .inr (.inr ⟨m, hm⟩)
  | depositCollateral | withdrawCollateral | privateDepositCollateral =>
      cases hM
      obtain ⟨⟨m, r, o⟩, hcheck, -⟩ := bind_eq_ok.mp h
      exact .inr (.inr ⟨m, (CollateralAccounts.check_names hcheck).1.market⟩)
  | borrow | repay | privateBorrow =>
      cases hM
      obtain ⟨⟨m, r, o⟩, hcheck, -⟩ := bind_eq_ok.mp h
      exact .inr (.inr ⟨m, (DebtAccounts.check_names hcheck).1.market⟩)
  | liquidate | executePrivateLiquidation =>
      cases hM
      obtain ⟨⟨m, o⟩, hcheck, -⟩ := bind_eq_ok.mp h
      exact .inr (.inr ⟨m, (LiquidationAccounts.check_names hcheck).1⟩)
  | _ => cases hM

/-- Every way an instruction changes the obligation at `x`. -/
inductive ObligationChange (w : World) (ix : Instruction) (x : Pubkey) (o : Obligation) :
    Obligation → Prop
  | refresh {accounts : List Pubkey} {o' : Obligation}
      (hmarket : ix.lendingMarket = some o.lendingMarket)
      (h : Ledger.refreshObligation w.reserves accounts w.clock o = .ok o') :
      ObligationChange w ix x o o'
  | deposit {M user k : Pubkey} {m : LendingMarket} {r : Reserve} {a : U64} {o' : Obligation}
      (hown : w.Own ix x M user k m r) (hpause : m.isPaused = false)
      (hactive : r.config.isActive = true) (h : (o.deposit k a).commit = .ok o') :
      ObligationChange w ix x o o'
  | withdraw {M user k : Pubkey} {m : LendingMarket} {r : Reserve} {a : U64} {o' : Obligation}
      (hown : w.Own ix x M user k m r)
      (h : Ledger.withdrawCollateral m w.clock k o a = .ok o') : ObligationChange w ix x o o'
  | borrow {M user k : Pubkey} {m : LendingMarket} {r r' : Reserve} {a : U64} {o' : Obligation}
      (hown : w.Own ix x M user k m r) (hpause : m.isPaused = false)
      (hactive : r.config.isActive = true) (h : Ledger.Borrows w.clock k r o a r' o') :
      ObligationChange w ix x o o'
  | repay {M user k : Pubkey} {m : LendingMarket} {r r' : Reserve} {a : U64} {o' : Obligation}
      (hown : w.Own ix x M user k m r) (h : Ledger.repay w.clock k r o a = .ok (r', o')) :
      ObligationChange w ix x o o'
  | seize {gate : Obligation → Result Unit} {M repayKey withdrawKey : Pubkey} {m : LendingMarket}
      {a : U64} {s : Ledger.Seizure} (hseize : w.Seizing ix x M repayKey withdrawKey m o)
      (h : Ledger.seize gate w.clock repayKey withdrawKey w.reserves o a = .ok s) :
      ObligationChange w ix x o s.obligation

/-- Every way an instruction changes the reserve at `k`. -/
inductive ReserveChange (w : World) (ix : Instruction) (k : Pubkey) (r : Reserve) :
    Reserve → Prop
  | config {M owner mint : Pubkey} {m : LendingMarket} {config : InitReserveConfigParams}
      {r' : Reserve} (hix : ix = .updateReserveConfig owner M mint k config)
      (hm : w.ownedMarket owner M = .ok m) (hk : k = .reserve M mint)
      (h : r.updateConfig config = .ok r') : ReserveChange w ix k r r'
  | refresh {m : LendingMarket} {priceKey : Pubkey} {priceUpdate : Option PriceUpdate}
      {r' : Reserve} (hix : ix = .refreshReserve r.lendingMarket k priceKey priceUpdate)
      (hm : w.market r.lendingMarket = .ok m)
      (h : Ledger.refreshReserve w.clock r priceKey priceUpdate = .ok r') :
      ReserveChange w ix k r r'
  | deposit {M : Pubkey} {m : LendingMarket} {a c : U64} {r' : Reserve}
      (hmarket : ix.lendingMarket = some M) (hin : w.InMarket M k m r)
      (h : Ledger.deposit m w.clock r a = .ok (r', c)) : ReserveChange w ix k r r'
  | withdraw {M : Pubkey} {m : LendingMarket} {a l : U64} {r' : Reserve}
      (hmarket : ix.lendingMarket = some M) (hin : w.InMarket M k m r)
      (h : Ledger.withdraw m w.clock r a = .ok (r', l)) : ReserveChange w ix k r r'
  | borrow {x M user : Pubkey} {m : LendingMarket} {r' : Reserve} {o o' : Obligation} {a : U64}
      (hown : w.Own ix x M user k m r) (hpause : m.isPaused = false)
      (hactive : r.config.isActive = true) (h : Ledger.Borrows w.clock k r o a r' o') :
      ReserveChange w ix k r r'
  | repay {x M user : Pubkey} {m : LendingMarket} {r' : Reserve} {o o' : Obligation} {a : U64}
      (hown : w.Own ix x M user k m r) (h : Ledger.repay w.clock k r o a = .ok (r', o')) :
      ReserveChange w ix k r r'
  | seize {gate : Obligation → Result Unit} {x M repayKey withdrawKey : Pubkey}
      {m : LendingMarket} {o : Obligation} {a : U64} {s : Ledger.Seizure} {r' : Reserve}
      (hseize : w.Seizing ix x M repayKey withdrawKey m o) (hk : k ∈ [repayKey, withdrawKey])
      (h : Ledger.seize gate w.clock repayKey withdrawKey w.reserves o a = .ok s)
      (hr' : s.reserves k = some r') : ReserveChange w ix k r r'

variable {mxe : Mxe} {w w' : World} {ix : Instruction} {x k : Pubkey} {amount : U64}

/-- Every way an instruction changes the market at `M`. -/
inductive MarketChange (w : World) (ix : Instruction) (M : Pubkey) (m : LendingMarket) :
    LendingMarket → Prop
  | pause {owner : Pubkey} {paused : Bool} (hix : ix = .setPause owner M paused)
      (hm : w.ownedMarket owner M = .ok m) : MarketChange w ix M m (m.setEmergencyPause paused)
  | authority {owner newAuthority : Pubkey}
      (hix : ix = .updateMarketAuthority owner M newAuthority)
      (hm : w.ownedMarket owner M = .ok m) : MarketChange w ix M m { m with owner := newAuthority }

/-- What became of the market at `M`. -/
def Markets (w w' : World) (ix : Instruction) (M : Pubkey) : Prop :=
  w'.markets M = w.markets M ∨
    (∃ owner fee, ix = .initializeMarket owner M fee ∧ owner.isWallet = true ∧
      M = .lendingMarket owner ∧ w.markets M = none ∧ w'.markets M = some (.init owner fee)) ∨
    ∃ m m', w.markets M = some m ∧ w.MarketChange ix M m m' ∧ w'.markets M = some m'

/-- What a successful instruction does to a market. -/
theorem exec_market (h : w.exec mxe ix = .ok w') (M : Pubkey) : w.Markets w' ix M := by
  cases ix with
  | initializeMarket owner key fee =>
      simp only [exec, World.initializeMarket, bind_eq_ok, signer_eq_ok, vacant_eq_ok,
        seeds_eq_ok, exists_const, pure_eq_ok] at h
      obtain ⟨hsign, hnew, hkey, -, -, rfl⟩ := h
      by_cases hM : M = key
      · subst hM
        exact .inr (.inl ⟨owner, fee, rfl, hsign, hkey, hnew, store_self _ _ _⟩)
      · exact .inl (store_of_ne _ _ hM)
  | setPause owner key paused =>
      simp only [exec, World.setPause, bind_eq_ok, pure_eq_ok] at h
      obtain ⟨m, hm, rfl⟩ := h
      by_cases hM : M = key
      · subst hM
        exact .inr (.inr ⟨m, _, (ownedMarket_eq_ok.mp hm).2.1, .pause rfl hm, store_self _ _ _⟩)
      · exact .inl (store_of_ne _ _ hM)
  | updateMarketAuthority owner key newAuthority =>
      simp only [exec, World.updateMarketAuthority, bind_eq_ok, pure_eq_ok] at h
      obtain ⟨m, hm, rfl⟩ := h
      by_cases hM : M = key
      · subst hM
        exact .inr (.inr ⟨m, _, (ownedMarket_eq_ok.mp hm).2.1, .authority rfl hm,
          store_self _ _ _⟩)
      · exact .inl (store_of_ne _ _ hM)
  | liquidate a amount =>
      simp only [exec, World.liquidate, settleSeizure, bind_eq_ok, pure_eq_ok] at h
      obtain ⟨-, -, -, -, -, -, -, -, rfl⟩ := h
      exact .inl rfl
  | executePrivateLiquidation a amount =>
      simp only [exec, World.executePrivateLiquidation, settleSeizure, bind_eq_ok,
        pure_eq_ok] at h
      obtain ⟨-, -, -, -, -, -, -, -, -, ⟨-, -, -, -, rfl⟩, rfl⟩ := h
      exact .inl rfl
  | _ =>
      left
      repeat (obtain ⟨_, -, h⟩ := bind_eq_ok.mp h)
      cases h
      rfl

/-- Which obligation is the instruction's, and what became of it. -/
def Obligates (w w' : World) (ix : Instruction) : Prop :=
  w'.obligations = w.obligations ∨
    (∃ x owner M m, ix.lendingMarket = some M ∧ ix.signer = some owner ∧ w.market M = .ok m ∧
      x = .obligation M owner ∧ w.obligations x = none ∧
      w'.obligations = store w.obligations x (.init owner M)) ∨
    ∃ x o o', w.obligations x = some o ∧ w.ObligationChange ix x o o' ∧
      w'.obligations = store w.obligations x o'

theorem liquidate_obligates {a : LiquidationAccounts} (h : w.liquidate a amount = .ok w') :
    w.Obligates w' (.liquidate a amount) := by
  simp only [World.liquidate, bind_eq_ok, Prod.exists] at h
  obtain ⟨m, o, hcheck, s, hs, hsettle⟩ := h
  obtain ⟨hm, ho, hin, hrepay, hwithdraw⟩ := LiquidationAccounts.check_names hcheck
  exact .inr (.inr ⟨a.obligation, o, s.obligation, ho,
    .seize ⟨rfl, hm, Ledger.liquidate_unpaused hs, ho, hin, hrepay, hwithdraw⟩
      (Ledger.liquidate_ok hs), settleSeizure_obligations hsettle⟩)

theorem executePrivateLiquidation_obligates {a : PrivateLiquidationAccounts}
    (h : w.executePrivateLiquidation a amount = .ok w') :
    w.Obligates w' (.executePrivateLiquidation a amount) := by
  simp only [World.executePrivateLiquidation, bind_eq_ok, pure_eq_ok, Prod.exists] at h
  obtain ⟨m, o, hcheck, _, -, _, -, s, hs, v, hsettle, rfl⟩ := h
  obtain ⟨hm, ho, hin, hrepay, hwithdraw⟩ := LiquidationAccounts.check_names hcheck
  have hv : v.obligations = store w.obligations a.obligation s.obligation :=
    settleSeizure_obligations hsettle
  exact .inr (.inr ⟨a.obligation, o, s.obligation, ho,
    .seize ⟨rfl, hm, Ledger.executePrivateLiquidation_unpaused hs, ho, hin, hrepay, hwithdraw⟩
      (Ledger.executePrivateLiquidation_ok hs).2, hv⟩)

/-- What a successful instruction does to the obligations. -/
theorem exec_obligation (h : w.exec mxe ix = .ok w') : w.Obligates w' ix := by
  cases ix with
  | initObligation owner market key =>
      simp only [exec, World.initObligation, bind_eq_ok, vacant_eq_ok, seeds_eq_ok, exists_const,
        pure_eq_ok] at h
      obtain ⟨-, -, m, hm, hnew, hkey, rfl⟩ := h
      exact .inr (.inl ⟨key, owner, market, m, rfl, rfl, hm, hkey, hnew, rfl⟩)
  | refreshObligation market key accounts =>
      simp only [exec, World.refreshObligation, bind_eq_ok, load_eq_ok, pure_eq_ok] at h
      obtain ⟨-, -, o, ho, o', hrefresh, rfl⟩ := h
      obtain ⟨ho', hmarket⟩ := obligationIn_ok ho
      exact .inr (.inr ⟨key, o, o', ho', .refresh (congrArg some hmarket.symm) hrefresh, rfl⟩)
  | depositCollateral a amount =>
      simp only [exec, World.depositCollateral, bind_eq_ok, pure_eq_ok, Prod.exists] at h
      obtain ⟨m, r, o, hcheck, o', hled, t, -, rfl⟩ := h
      obtain ⟨hin, ho, hx⟩ := CollateralAccounts.check_names hcheck
      obtain ⟨hpause, hactive⟩ := Ledger.depositCollateral_switches hled
      exact .inr (.inr ⟨_, o, o', ho, .deposit ⟨hin, rfl, rfl, hx⟩ hpause hactive
        (Ledger.depositCollateral_ok hled), rfl⟩)
  | privateDepositCollateral a amount encrypted =>
      simp only [exec, World.privateDepositCollateral, bind_eq_ok, pure_eq_ok, Prod.exists] at h
      obtain ⟨m, r, o, hcheck, s, -, -, -, o', hled, t, -, s', -, rfl⟩ := h
      obtain ⟨hin, ho, hx⟩ := CollateralAccounts.check_names hcheck
      obtain ⟨hpause, hactive⟩ := Ledger.privateDepositCollateral_switches hled
      exact .inr (.inr ⟨_, o, o', ho, .deposit ⟨hin, rfl, rfl, hx⟩ hpause hactive
        (Ledger.privateDepositCollateral_ok hled), rfl⟩)
  | withdrawCollateral a amount =>
      simp only [exec, World.withdrawCollateral, bind_eq_ok, pure_eq_ok, Prod.exists] at h
      obtain ⟨m, r, o, hcheck, o', hled, t, -, rfl⟩ := h
      obtain ⟨hin, ho, hx⟩ := CollateralAccounts.check_names hcheck
      exact .inr (.inr ⟨_, o, o', ho, .withdraw ⟨hin, rfl, rfl, hx⟩ hled, rfl⟩)
  | borrow a amount =>
      simp only [exec, World.borrow, bind_eq_ok, pure_eq_ok, Prod.exists] at h
      obtain ⟨m, r, o, hcheck, r', o', hled, t, -, rfl⟩ := h
      obtain ⟨hin, ho, hx⟩ := DebtAccounts.check_names hcheck
      obtain ⟨hpause, hactive⟩ := Ledger.borrow_switches hled
      exact .inr (.inr ⟨_, o, o', ho, .borrow ⟨hin, rfl, rfl, hx⟩ hpause hactive
        (Ledger.borrow_ok hled), rfl⟩)
  | privateBorrow a amount encrypted =>
      simp only [exec, World.privateBorrow, bind_eq_ok, pure_eq_ok, Prod.exists] at h
      obtain ⟨m, r, o, hcheck, s, -, r', o', hled, t, -, s', -, rfl⟩ := h
      obtain ⟨hin, ho, hx⟩ := DebtAccounts.check_names hcheck
      obtain ⟨hpause, hactive⟩ := Ledger.privateBorrow_switches hled
      exact .inr (.inr ⟨_, o, o', ho, .borrow ⟨hin, rfl, rfl, hx⟩ hpause hactive
        (Ledger.privateBorrow_ok hled), rfl⟩)
  | repay a amount =>
      simp only [exec, World.repay, bind_eq_ok, pure_eq_ok, Prod.exists] at h
      obtain ⟨m, r, o, hcheck, -, -, r', o', hled, t, -, rfl⟩ := h
      obtain ⟨hin, ho, hx⟩ := DebtAccounts.check_names hcheck
      exact .inr (.inr ⟨_, o, o', ho, .repay ⟨hin, rfl, rfl, hx⟩ hled, rfl⟩)
  | liquidate a amount => exact liquidate_obligates h
  | executePrivateLiquidation a amount => exact executePrivateLiquidation_obligates h
  | _ =>
      left
      repeat (obtain ⟨_, -, h⟩ := bind_eq_ok.mp h)
      cases h
      rfl

/-- The reserve an instruction may create. -/
def Creates (w : World) (ix : Instruction) (k : Pubkey) (r : Reserve) : Prop :=
  ∃ a config m, ix = .addReserve a config ∧ w.ownedMarket a.owner a.lendingMarket = .ok m ∧
    m.isPaused = false ∧ k = a.reserve ∧ k = .reserve a.lendingMarket a.reserveMint ∧
    w.reserves k = none ∧
    Reserve.create w.clock.slot a.lendingMarket k a.reserveMint config = .ok r

/-- What became of the reserve at `k`. -/
def Reserves (w w' : World) (ix : Instruction) (k : Pubkey) : Prop :=
  w'.reserves k = w.reserves k ∨ (∃ r, w.Creates ix k r ∧ w'.reserves k = some r) ∨
    ∃ r r', w.reserves k = some r ∧ w.ReserveChange ix k r r' ∧ w'.reserves k = some r'

/-- Only the reserve at `k₀` was written. -/
theorem reserves_of_store {k₀ : Pubkey} {r r' : Reserve} (hr : w.reserves k₀ = some r)
    (hchange : w.ReserveChange ix k₀ r r') (hw' : w'.reserves = store w.reserves k₀ r')
    (k : Pubkey) : w.Reserves w' ix k := by
  by_cases hk : k = k₀
  · subst hk
    exact .inr (.inr ⟨r, r', hr, hchange, by rw [hw', store_self]⟩)
  · exact .inl (by rw [hw', store_of_ne _ _ hk])

/-- Both reserves of a liquidation are written back, accrued. -/
theorem seized_some {gate : Obligation → Result Unit} {clock : Clock}
    {repayKey withdrawKey : Pubkey} {reserves : Pubkey → Option Reserve} {o : Obligation} {a : U64}
    {s : Ledger.Seizure}
    (h : Ledger.seize gate clock repayKey withdrawKey reserves o a = .ok s)
    (hk : k ∈ [repayKey, withdrawKey]) : ∃ r', s.reserves k = some r' := by
  obtain ⟨_, r₁, _, q₁, _, _, _, hparts⟩ := Ledger.seize_parts h
  obtain ⟨r₂, r₃, -, -, hs⟩ := hparts.reserves
  rw [hs]
  by_cases hrepay : k = repayKey
  · exact ⟨r₃, hrepay ▸ store_self _ _ _⟩
  · rcases List.mem_pair.mp hk with he | he
    · exact absurd he hrepay
    · exact ⟨q₁, by rw [store_of_ne _ _ hrepay, he, store_self]⟩

theorem seizure_reserves {gate : Obligation → Result Unit} {x M repayKey withdrawKey : Pubkey}
    {m : LendingMarket} {o : Obligation} {a : U64} {s : Ledger.Seizure}
    (hseize : w.Seizing ix x M repayKey withdrawKey m o)
    (h : Ledger.seize gate w.clock repayKey withdrawKey w.reserves o a = .ok s)
    (hw' : w'.reserves = s.reserves) (k : Pubkey) : w.Reserves w' ix k := by
  by_cases hk : k ∈ [repayKey, withdrawKey]
  · obtain ⟨r, hr, -⟩ : ∃ r, w.reserves k = some r ∧ r.lendingMarket = M := by
      rcases List.mem_pair.mp hk with rfl | rfl
      · exact hseize.repayIn
      · exact hseize.withdrawIn
    obtain ⟨r', hr'⟩ := seized_some h hk
    exact .inr (.inr ⟨r, r', hr, .seize hseize hk h hr', by rw [hw', hr']⟩)
  · exact .inl (by rw [hw', seize_reserves_of_ne h hk])

/-- What a successful instruction does to a reserve. -/
theorem exec_reserve (h : w.exec mxe ix = .ok w') (k : Pubkey) : w.Reserves w' ix k := by
  cases ix with
  | addReserve a config =>
      simp only [exec, World.addReserve, bind_eq_ok, require_eq_ok, vacant_eq_ok, seeds_eq_ok,
        exists_const, pure_eq_ok] at h
      obtain ⟨m, hm, hpause, hnew, hkey, -, -, -, -, -, -, -, -, -, -, -, -, r, hcreate, rfl⟩ := h
      by_cases hk : k = a.reserve
      · subst hk
        exact .inr (.inl ⟨r, ⟨a, config, m, rfl, hm, hpause, rfl, hkey, hnew, hcreate⟩,
          store_self _ _ _⟩)
      · exact .inl (store_of_ne _ _ hk)
  | updateReserveConfig owner market mint key config =>
      simp only [exec, World.updateReserveConfig, bind_eq_ok, pure_eq_ok] at h
      obtain ⟨m, hm, r, hr, -, -, r', hupdate, rfl⟩ := h
      obtain ⟨hr', hkey⟩ := reserveOf_ok hr
      exact reserves_of_store hr' (.config rfl hm hkey hupdate) rfl k
  | refreshReserve market key priceKey priceUpdate =>
      simp only [exec, World.refreshReserve, bind_eq_ok, pure_eq_ok] at h
      obtain ⟨m, hm, r, hr, r', hrefresh, rfl⟩ := h
      obtain ⟨hr', rfl⟩ := reserveIn_ok hr
      exact reserves_of_store hr' (.refresh rfl hm hrefresh) rfl k
  | deposit a amount =>
      simp only [exec, World.deposit, bind_eq_ok, pure_eq_ok, Prod.exists] at h
      obtain ⟨m, r, hcheck, r', c, hled, t₁, -, t₂, -, rfl⟩ := h
      have hin := LiquidityAccounts.check_names hcheck
      exact reserves_of_store hin.reserve (.deposit rfl hin hled) rfl k
  | withdraw a amount =>
      simp only [exec, World.withdraw, bind_eq_ok, pure_eq_ok, Prod.exists] at h
      obtain ⟨m, r, hcheck, r', l, hled, t₁, -, t₂, -, rfl⟩ := h
      have hin := LiquidityAccounts.check_names hcheck
      exact reserves_of_store hin.reserve (.withdraw rfl hin hled) rfl k
  | borrow a amount =>
      simp only [exec, World.borrow, bind_eq_ok, pure_eq_ok, Prod.exists] at h
      obtain ⟨m, r, o, hcheck, r', o', hled, t, -, rfl⟩ := h
      obtain ⟨hin, -, hx⟩ := DebtAccounts.check_names hcheck
      obtain ⟨hpause, hactive⟩ := Ledger.borrow_switches hled
      exact reserves_of_store hin.reserve (.borrow ⟨hin, rfl, rfl, hx⟩ hpause hactive
        (Ledger.borrow_ok hled)) rfl k
  | privateBorrow a amount encrypted =>
      simp only [exec, World.privateBorrow, bind_eq_ok, pure_eq_ok, Prod.exists] at h
      obtain ⟨m, r, o, hcheck, s, -, r', o', hled, t, -, s', -, rfl⟩ := h
      obtain ⟨hin, -, hx⟩ := DebtAccounts.check_names hcheck
      obtain ⟨hpause, hactive⟩ := Ledger.privateBorrow_switches hled
      exact reserves_of_store hin.reserve (.borrow ⟨hin, rfl, rfl, hx⟩ hpause hactive
        (Ledger.privateBorrow_ok hled)) rfl k
  | repay a amount =>
      simp only [exec, World.repay, bind_eq_ok, pure_eq_ok, Prod.exists] at h
      obtain ⟨m, r, o, hcheck, -, -, r', o', hled, t, -, rfl⟩ := h
      obtain ⟨hin, -, hx⟩ := DebtAccounts.check_names hcheck
      exact reserves_of_store hin.reserve (.repay ⟨hin, rfl, rfl, hx⟩ hled) rfl k
  | liquidate a amount =>
      simp only [exec, World.liquidate, bind_eq_ok, Prod.exists] at h
      obtain ⟨m, o, hcheck, s, hs, hsettle⟩ := h
      obtain ⟨hm, ho, hin, hrepay, hwithdraw⟩ := LiquidationAccounts.check_names hcheck
      exact seizure_reserves ⟨rfl, hm, Ledger.liquidate_unpaused hs, ho, hin, hrepay, hwithdraw⟩
        (Ledger.liquidate_ok hs) (settleSeizure_reserves hsettle) k
  | executePrivateLiquidation a amount =>
      simp only [exec, World.executePrivateLiquidation, bind_eq_ok, pure_eq_ok, Prod.exists] at h
      obtain ⟨m, o, hcheck, _, -, _, -, s, hs, v, hsettle, rfl⟩ := h
      obtain ⟨hm, ho, hin, hrepay, hwithdraw⟩ := LiquidationAccounts.check_names hcheck
      have hv : v.reserves = s.reserves := settleSeizure_reserves hsettle
      exact seizure_reserves
        ⟨rfl, hm, Ledger.executePrivateLiquidation_unpaused hs, ho, hin, hrepay, hwithdraw⟩
        (Ledger.executePrivateLiquidation_ok hs).2 hv k
  | _ =>
      left
      repeat (obtain ⟨_, -, h⟩ := bind_eq_ok.mp h)
      cases h
      rfl

/-- What became of an obligation that existed. -/
theorem exec_obligation_at {o : Obligation} (h : w.exec mxe ix = .ok w')
    (ho : w.obligations x = some o) :
    ∃ o', w'.obligations x = some o' ∧ (o' = o ∨ w.ObligationChange ix x o o') := by
  rcases exec_obligation h with hsame | ⟨y, owner, M, m, -, -, -, -, hnew, hstore⟩ |
    ⟨y, p, o', hp, hchange, hstore⟩
  · exact ⟨o, hsame ▸ ho, .inl rfl⟩
  · have hne : x ≠ y := by
      rintro rfl
      cases hnew.symm.trans ho
    exact ⟨o, by rw [hstore, store_of_ne _ _ hne, ho], .inl rfl⟩
  · by_cases hxy : x = y
    · subst hxy
      cases hp.symm.trans ho
      exact ⟨o', by rw [hstore, store_self], .inr hchange⟩
    · exact ⟨o, by rw [hstore, store_of_ne _ _ hxy, ho], .inl rfl⟩

/-- What became of a reserve that existed. -/
theorem exec_reserve_at {r : Reserve} (h : w.exec mxe ix = .ok w') (hr : w.reserves k = some r) :
    ∃ r', w'.reserves k = some r' ∧ (r' = r ∨ w.ReserveChange ix k r r') := by
  rcases exec_reserve h k with
    hsame | ⟨-, ⟨-, -, -, -, -, -, -, -, hnew, -⟩, -⟩ | ⟨q, r', hq, hchange, hr'⟩
  · exact ⟨r, hsame.trans hr, .inl rfl⟩
  · cases hnew.symm.trans hr
  · cases hq.symm.trans hr
    exact ⟨r', hr', .inr hchange⟩

/-- A liquidation accrues its reserves, and books a repayment in one. -/
theorem seize_reserve {gate : Obligation → Result Unit} {clock : Clock}
    {repayKey withdrawKey : Pubkey} {reserves : Pubkey → Option Reserve} {o : Obligation} {a : U64}
    {s : Ledger.Seizure} {r r' : Reserve} (hr : reserves k = some r)
    (h : Ledger.seize gate clock repayKey withdrawKey reserves o a = .ok s)
    (hr' : s.reserves k = some r') (hk : k ∈ [repayKey, withdrawKey]) :
    ∃ r₁, r.accrueInterest clock.slot = .ok r₁ ∧
      ((k ≠ repayKey ∧ r' = r₁) ∨ (k = repayKey ∧ r₁.repay s.actualRepay = .ok r')) := by
  obtain ⟨p, p₁, q, q₁, i, j, o₁, hparts⟩ := Ledger.seize_parts h
  obtain ⟨p₃, hp₃, hs⟩ := hparts.paid
  rw [hs] at hr'
  by_cases hrepay : k = repayKey
  · subst hrepay
    rw [store_self] at hr'
    cases hr'
    cases hparts.repayReserve.symm.trans hr
    exact ⟨p₁, hparts.repayAccrued, .inr ⟨rfl, hp₃⟩⟩
  · obtain rfl : k = withdrawKey := (List.mem_pair.mp hk).resolve_left hrepay
    rw [store_of_ne _ _ hrepay, store_self] at hr'
    obtain ⟨q₀, hq₀, hqacc⟩ := hparts.withdrawn
    cases hq₀.symm.trans hr
    exact ⟨q₁, hqacc, .inl ⟨hrepay, (Option.some.inj hr').symm⟩⟩

end World

/-! ## Accrue, then move -/

namespace Reserve

variable {r r' : Reserve}

/-- What is done to an accrued reserve. -/
inductive Move (r : Reserve) : Reserve → Prop
  | stay : Move r r
  | price (p : U128) (t : Int64) : Move r { r with
      liquidity := { r.liquidity with marketPriceSf := p, priceLastUpdatedTs := t } }
  | deposit {a c : U64} {r' : Reserve} (h : r.depositLiquidity a = .ok (r', c)) : Move r r'
  | redeem {c l : U64} {r' : Reserve} (h : r.redeemCollateral c = .ok (r', l)) : Move r r'
  | borrow {a : U64} {r' : Reserve} (h : r.borrow a = .ok r') : Move r r'
  | repay {a : U64} {r' : Reserve} (h : r.repay a = .ok r') : Move r r'

/-- Interest and its terms are none of a move's business. -/
structure SameInterest (r r' : Reserve) : Prop where
  config : r'.config = r.config
  lastUpdateSlot : r'.lastUpdateSlot = r.lastUpdateSlot
  index : r'.liquidity.cumulativeBorrowRateSf = r.liquidity.cumulativeBorrowRateSf
  fees : r'.liquidity.accumulatedProtocolFees = r.liquidity.accumulatedProtocolFees

theorem Move.sameInterest (h : r.Move r') : r.SameInterest r' := by
  cases h with
  | stay | price => exact ⟨rfl, rfl, rfl, rfl⟩
  | deposit h =>
      obtain ⟨-, -, v, n, -, -, rfl⟩ := depositLiquidity_ok h
      exact ⟨rfl, rfl, rfl, rfl⟩
  | redeem h =>
      obtain ⟨-, v, n, -, -, rfl⟩ := redeemCollateral_ok h
      exact ⟨rfl, rfl, rfl, rfl⟩
  | borrow h =>
      obtain ⟨-, l', hl, rfl⟩ := borrow_ok.mp h
      obtain ⟨v, d, -, -, rfl⟩ := ReserveLiquidity.borrow_ok.mp hl
      exact ⟨rfl, rfl, rfl, rfl⟩
  | repay h =>
      obtain ⟨l', hl, rfl⟩ := repay_ok.mp h
      obtain ⟨v, d, -, -, rfl⟩ := ReserveLiquidity.repay_ok.mp hl
      exact ⟨rfl, rfl, rfl, rfl⟩

end Reserve

namespace World

variable {w : World} {ix : Instruction} {k : Pubkey} {r r' : Reserve}

/-- Every change but the owner's update accrues the reserve first. -/
theorem ReserveChange.steps (h : w.ReserveChange ix k r r') (hr : w.reserves k = some r) :
    (∃ owner M mint config m, ix = .updateReserveConfig owner M mint k config ∧
      w.ownedMarket owner M = .ok m ∧ k = .reserve M mint ∧ r.updateConfig config = .ok r') ∨
    ∃ r₁, r.accrueInterest w.clock.slot = .ok r₁ ∧ r₁.Move r' := by
  cases h with
  | config hix hm hk h => exact .inl ⟨_, _, _, _, _, hix, hm, hk, h⟩
  | refresh _ _ h =>
      obtain ⟨r₁, p, t, hacc, rfl⟩ := Ledger.refreshReserve_ok h
      exact .inr ⟨r₁, hacc, .price p t⟩
  | deposit _ _ h =>
      obtain ⟨r₁, hacc, hdep⟩ := Ledger.deposit_ok h
      exact .inr ⟨r₁, hacc, .deposit hdep⟩
  | withdraw _ _ h =>
      obtain ⟨r₁, hacc, hred⟩ := Ledger.withdraw_ok h
      exact .inr ⟨r₁, hacc, .redeem hred⟩
  | borrow _ _ _ h =>
      obtain ⟨r₁, o₁, hacc, hbor, -, -⟩ := h.steps
      exact .inr ⟨r₁, hacc, .borrow hbor⟩
  | repay _ h =>
      obtain ⟨r₁, i, o₁, hacc, hrep, -, -, -⟩ := Ledger.repay_ok h
      exact .inr ⟨r₁, hacc, .repay hrep⟩
  | seize _ hk h hr' =>
      obtain ⟨r₁, hacc, ⟨-, rfl⟩ | ⟨-, hrep⟩⟩ := seize_reserve hr h hr' hk
      · exact .inr ⟨_, hacc, .stay⟩
      · exact .inr ⟨r₁, hacc, .repay hrep⟩

end World

end VeilVault
