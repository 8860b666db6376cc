/-
# VeilVault.World.Donations — the books are exact.

That the vaults hold at least what the books record (`World.Vaults`) leaves open where the rest
comes from.  It comes from outside: every instruction moves a vault and the books by the same
amount, in both directions, unless the account that it is told to pay is itself a vault.  So over
any stretch of a run in which nobody names a vault as the account to be paid, what lies in it
beyond the books does not change; and the recorded cToken supply runs ahead of the tokens in
circulation by exactly what holders burn themselves (`books_balance`).
-/
import VeilVault.World.Payouts

namespace VeilVault

open Kit

/-- What an instruction names that it pays into without an entry in the books: a borrower's and a
liquidator's account can be anybody's, and so can the destination of tokens that change hands
outside the program. -/
def Instruction.unrecorded : Instruction → List Pubkey
  | .borrow a _ => [a.userTokenAccount]
  | .privateBorrow a _ _ => [a.userTokenAccount]
  | .liquidate a _ => [a.liquidatorCollateralAccount]
  | .executePrivateLiquidation a _ => [a.liquidatorCollateralAccount]
  | .mintTokens _ destination _ _ => [destination]
  | .transferTokens _ _ destination _ _ => [destination]
  | _ => []

/-- The cTokens of `k` that an instruction burns outside the program. -/
def Instruction.burns : Instruction → Pubkey → ℕ
  | .burnTokens mint _ _ amount =>
      fun k => if Pubkey.collateralMint k = mint then amount.toNat else 0
  | _ => 0

namespace Books

variable {b b' : Books} {clock : Clock} {D : List Pubkey} {k mint source target user : Pubkey}
  {authority : Pubkey} {r r' : Reserve} {o o' : Obligation} {a c : U64}
  {t t' t₁ t₂ : TokenLedger Pubkey}

/-- Vaults and books move together, except for the accounts in `D`; and so do the cTokens in
circulation and the recorded supply, except for what is `burnt`. -/
structure Exact (D : List Pubkey) (burnt : Pubkey → ℕ) (b b' : Books) : Prop where
  liquidity : ∀ k, Pubkey.liquidityVault k ∉ D →
    b'.available k + b.vault k = b.available k + b'.vault k
  supply : ∀ k, b'.outstanding k + b.minted k + burnt k = b.outstanding k + b'.minted k
  collateral : ∃ x, ∀ k, k.isWallet = false → Pubkey.collateralSupply k ∉ D →
    (∀ y, y ≠ x → b'.deposited k y = b.deposited k y) ∧
      b'.deposited k x + b.locked k = b.deposited k x + b'.locked k

theorem unburnt {m n : ℕ} {k : Pubkey} (h : m = n) : m + (0 : Pubkey → ℕ) k = n := h

/-! ## Balances -/

theorem paid (h : t.transfer source mint target authority a = .ok t') {x : Pubkey}
    (hx : x ≠ target) : t'.balance x + (if x = source then a.toNat else 0) = t.balance x := by
  have hbal := (TokenLedger.transfer_ok h).2.2.2 x
  rwa [if_neg hx, Nat.add_zero] at hbal

theorem unpaid (h : t.transfer source mint target authority a = .ok t') {x : Pubkey}
    (hs : x ≠ source) (hx : x ≠ target) : t'.balance x = t.balance x := by
  have hbal := paid h hx
  rwa [if_neg hs, Nat.add_zero] at hbal

theorem unminted (h : t.mintTo mint target authority a = .ok t') {x : Pubkey} (hx : x ≠ target) :
    t'.balance x = t.balance x := by
  have hbal := (TokenLedger.mintTo_ok h).2.2.2 x
  rwa [if_neg hx, Nat.add_zero] at hbal

section Vaults

theorem vault_received (hg : Guarded t) (hsign : user.isWallet = true)
    (h : t.transfer source mint (.liquidityVault k) user a = .ok t') (x : Pubkey) :
    t'.balance (.liquidityVault x) =
      t.balance (.liquidityVault x) + (if x = k then a.toNat else 0) := by
  have hin := hg.paidIn hsign h (x := .liquidityVault x) rfl
  simp only [Pubkey.liquidityVault.injEq] at hin
  exact hin

theorem vault_paid (h : t.transfer (.liquidityVault k) mint target authority a = .ok t')
    {x : Pubkey} (hx : Pubkey.liquidityVault x ≠ target) :
    t'.balance (.liquidityVault x) + (if x = k then a.toNat else 0) =
      t.balance (.liquidityVault x) := by
  have hout := paid h hx
  simp only [Pubkey.liquidityVault.injEq] at hout
  exact hout

theorem locked_received (hg : Guarded t) (hsign : user.isWallet = true)
    (h : t.transfer source mint (.collateralSupply k) user a = .ok t') (x : Pubkey) :
    t'.balance (.collateralSupply x) =
      t.balance (.collateralSupply x) + (if x = k then a.toNat else 0) := by
  have hin := hg.paidIn hsign h (x := .collateralSupply x) rfl
  simp only [Pubkey.collateralSupply.injEq] at hin
  exact hin

theorem locked_paid (h : t.transfer (.collateralSupply k) mint target authority a = .ok t')
    {x : Pubkey} (hx : Pubkey.collateralSupply x ≠ target) :
    t'.balance (.collateralSupply x) + (if x = k then a.toNat else 0) =
      t.balance (.collateralSupply x) := by
  have hout := paid h hx
  simp only [Pubkey.collateralSupply.injEq] at hout
  exact hout

end Vaults

/-! ## Obligations -/

theorem collateral_same (ho : b'.obligations = b.obligations)
    (hv : ∀ k, Pubkey.collateralSupply k ∉ D → b'.locked k = b.locked k) :
    ∃ x, ∀ k, k.isWallet = false → Pubkey.collateralSupply k ∉ D →
      (∀ y, y ≠ x → b'.deposited k y = b.deposited k y) ∧
        b'.deposited k x + b.locked k = b.deposited k x + b'.locked k := by
  have hdep (k x : Pubkey) : b'.deposited k x = b.deposited k x := by
    rw [deposited, ho, deposited]
  refine ⟨default, fun k _ hk => ⟨fun y _ => hdep k y, ?_⟩⟩
  rw [hdep, hv k hk]

theorem collateral_moved {x : Pubkey} (ho : b.obligations x = some o)
    (ho' : b'.obligations = store b.obligations x o')
    (hmoved : ∀ k, k.isWallet = false → Pubkey.collateralSupply k ∉ D →
      o'.deposited k + b.locked k = o.deposited k + b'.locked k) :
    ∃ x, ∀ k, k.isWallet = false → Pubkey.collateralSupply k ∉ D →
      (∀ y, y ≠ x → b'.deposited k y = b.deposited k y) ∧
        b'.deposited k x + b.locked k = b.deposited k x + b'.locked k := by
  refine ⟨x, fun k hk hD => ⟨fun y hy => ?_, ?_⟩⟩
  · rw [deposited, ho', amountIn_store, if_neg hy, deposited]
  · rw [deposited, ho', amountIn_store, if_pos rfl, deposited, amountIn_of ho]
    exact hmoved k hk hD

/-! ## One instruction -/

/-- Neither vault nor mint of the program, unless `D` says so. -/
def Outside (D : List Pubkey) (target : Pubkey) : Prop :=
  ∀ x, x.isWallet = false → x ∉ D → x ≠ target

theorem outside_of_mem (h : target ∈ D) : Outside D target := by
  rintro x - hx rfl
  exact hx h

theorem outside_of_owned (hg : Guarded t) (hsign : user.isWallet = true)
    (hauth : t.authorityOf target = some user) : Outside D target :=
  fun _ hx _ => hg.ne_source hsign hauth hx

/-- Nothing but a reserve's terms, or an obligation's values. -/
theorem exact_same (ht : b'.tokens = b.tokens) (havail : ∀ x, b'.available x = b.available x)
    (hminted : ∀ x, b'.minted x = b.minted x)
    (hdeposited : ∃ x, ∀ k, k.isWallet = false →
      (∀ y, y ≠ x → b'.deposited k y = b.deposited k y) ∧ b'.deposited k x = b.deposited k x) :
    Exact D 0 b b' where
  liquidity x _ := by rw [havail x, vault, vault, ht]
  supply x := unburnt (by rw [hminted x, outstanding, outstanding, ht])
  collateral := by
    obtain ⟨x, hx⟩ := hdeposited
    refine ⟨x, fun k hk _ => ⟨(hx k hk).1, ?_⟩⟩
    rw [(hx k hk).2, locked, locked, ht]

theorem Exact.refl (D : List Pubkey) (b : Books) : Exact D 0 b b :=
  exact_same rfl (fun _ => rfl) (fun _ => rfl) ⟨default, fun _ _ => ⟨fun _ _ => rfl, rfl⟩⟩

/-- The terms of a reserve are rewritten, and none of its amounts. -/
theorem exact_terms (hr : b.reserves k = some r)
    (havail : r'.liquidity.availableAmount = r.liquidity.availableAmount)
    (hcollateral : r'.collateral = r.collateral) :
    Exact D 0 b { b with reserves := store b.reserves k r' } := by
  have hminted := amountIn_store_same (f := (·.collateral.mintTotalSupply.toNat)) hr
    (congrArg (·.mintTotalSupply.toNat) hcollateral)
  exact exact_same rfl (amountIn_store_same hr (congrArg BitVec.toNat havail)) hminted
    ⟨default, fun _ _ => ⟨fun _ _ => rfl, rfl⟩⟩

/-- Tokens that change hands outside the program. -/
theorem exact_tokens (hvault : ∀ x, Pubkey.liquidityVault x ∉ D →
      t.balance (.liquidityVault x) = b.tokens.balance (.liquidityVault x))
    (hlocked : ∀ x, Pubkey.collateralSupply x ∉ D →
      t.balance (.collateralSupply x) = b.tokens.balance (.collateralSupply x))
    {burnt : Pubkey → ℕ} (hsupply : ∀ x,
      t.supply (.collateralMint x) + burnt x = b.tokens.supply (.collateralMint x)) :
    Exact D burnt b { b with tokens := t } where
  liquidity x hx := congrArg (b.available x + ·) (hvault x hx).symm
  supply x := by
    have hx := hsupply x
    rw [outstanding, outstanding, Nat.add_right_comm, hx]
    rfl
  collateral := collateral_same rfl hlocked

theorem exact_opened {market : Pubkey} {t₃ t₄ : TokenLedger Pubkey}
    (hnew : b.reserves k = none) (hliquidity : r.liquidity.availableAmount.toNat = 0)
    (hcollateral : r.collateral.mintTotalSupply.toNat = 0)
    (h₁ : b.tokens.openAccount (.liquidityVault k) mint market = .ok t₁)
    (h₂ : t₁.openAccount (.feeVault k) mint market = .ok t₂)
    (h₃ : t₂.openMint (.collateralMint k) market = .ok t₃)
    (h₄ : t₃.openAccount (.collateralSupply k) (.collateralMint k) market = .ok t₄) :
    Exact D 0 b { b with reserves := store b.reserves k r, tokens := t₄ } := by
  obtain ⟨-, -, hsupply₁, hbal₁⟩ := TokenLedger.openAccount_ok h₁
  obtain ⟨-, -, hsupply₂, hbal₂⟩ := TokenLedger.openAccount_ok h₂
  obtain ⟨-, -, hsupply₃, hbal₃⟩ := TokenLedger.openMint_ok h₃
  obtain ⟨-, -, hsupply₄, hbal₄⟩ := TokenLedger.openAccount_ok h₄
  have hbal (x : Pubkey) : t₄.balance x = b.tokens.balance x := by
    rw [hbal₄, hbal₃, hbal₂, hbal₁]
  have hsupply (x : Pubkey) : t₄.supply x = b.tokens.supply x := by
    rw [hsupply₄, hsupply₃, hsupply₂, hsupply₁]
  constructor
  · intro x _
    exact congrArg₂ (· + ·) (amountIn_store_new hnew hliquidity x) (hbal _).symm
  · intro x
    exact unburnt (congrArg₂ (· + ·) (hsupply _) (amountIn_store_new hnew hcollateral x).symm)
  · exact collateral_same rfl fun x _ => hbal _

theorem exact_deposit {market : LendingMarket} (hb : b.Backed) (hr : b.reserves k = some r)
    (hsign : user.isWallet = true) (h : Ledger.deposit market clock r a = .ok (r', c))
    (h₁ : b.tokens.transfer source mint (.liquidityVault k) user a = .ok t₁)
    (h₂ : t₁.mintTo (.collateralMint k) target authority c = .ok t₂) (htarget : Outside D target) :
    Exact D 0 b { b with reserves := store b.reserves k r', tokens := t₂ } where
  liquidity x hx := moved_in (amountIn_store_add hr (Ledger.reserve_deposit h).1 x)
    ((unminted h₂ (htarget _ rfl hx)).trans (vault_received hb.guarded hsign h₁ x))
  supply x := by
    have hissued := (supply_issued h₂ x).trans (congrArg (· + _) (supply_transfer h₁ _))
    exact unburnt (moved_in hissued (amountIn_store_add hr (Ledger.reserve_deposit h).2 x))
  collateral := by
    refine collateral_same rfl fun x hx => (unminted h₂ (htarget _ rfl hx)).trans ?_
    exact hb.guarded.paidIn hsign h₁ (x := .collateralSupply x) rfl

theorem exact_withdraw {market : LendingMarket} (hb : b.Backed) (hr : b.reserves k = some r)
    (hsign : user.isWallet = true) (h : Ledger.withdraw market clock r a = .ok (r', c))
    (h₁ : b.tokens.burn (.collateralMint k) source user a = .ok t₁)
    (h₂ : t₁.transfer (.liquidityVault k) mint target authority c = .ok t₂)
    (htarget : Outside D target) :
    Exact D 0 b { b with reserves := store b.reserves k r', tokens := t₂ } where
  liquidity x hx := moved_out (amountIn_store_sub hr (Ledger.reserve_withdraw h).1 x)
    ((vault_paid h₂ (htarget _ rfl hx)).trans (hb.guarded.burnt hsign h₁ rfl))
  supply x := by
    have hstruck := (congrArg (· + _) (supply_transfer h₂ _)).trans (supply_struckOff h₁ x)
    exact unburnt (moved_out hstruck (amountIn_store_sub hr (Ledger.reserve_withdraw h).2 x))
  collateral := by
    refine collateral_same rfl fun x hx => ?_
    exact (unpaid h₂ Pubkey.noConfusion (htarget _ rfl hx)).trans (hb.guarded.burnt hsign h₁ rfl)

theorem exact_depositCollateral {x : Pubkey} (hb : b.Backed) (ho : b.obligations x = some o)
    (hk : k.isWallet = false) (hsign : user.isWallet = true) (h : (o.deposit k a).commit = .ok o')
    (h₁ : b.tokens.transfer source (.collateralMint k) (.collateralSupply k) user a = .ok t) :
    Exact D 0 b { b with obligations := store b.obligations x o', tokens := t } where
  liquidity y _ := congrArg (b.available y + ·)
    (hb.guarded.paidIn hsign h₁ (x := .liquidityVault y) rfl).symm
  supply y := unburnt (congrArg (· + b.minted y) (supply_transfer h₁ _))
  collateral := by
    refine collateral_moved ho rfl fun y hy _ => ?_
    have hposted := Obligation.deposited_deposit (Pubkey.ne_default hk) h (Pubkey.ne_default hy)
    exact moved_in hposted (locked_received hb.guarded hsign h₁ y)

theorem exact_withdrawCollateral {market : LendingMarket} {x : Pubkey}
    (ho : b.obligations x = some o) (h : Ledger.withdrawCollateral market clock k o a = .ok o')
    (h₁ : b.tokens.transfer (.collateralSupply k) (.collateralMint k) target authority a = .ok t)
    (htarget : Outside D target) :
    Exact D 0 b { b with obligations := store b.obligations x o', tokens := t } where
  liquidity y hy := congrArg (b.available y + ·)
    (unpaid h₁ Pubkey.noConfusion (htarget _ rfl hy)).symm
  supply y := unburnt (congrArg (· + b.minted y) (supply_transfer h₁ _))
  collateral := by
    refine collateral_moved ho rfl fun y hy hD => ?_
    have hreleased := (Ledger.frame_withdrawCollateral h).2 y (Pubkey.ne_default hy)
    exact moved_out hreleased (locked_paid h₁ (htarget _ rfl hD))

theorem exact_borrow {x : Pubkey} (ho : b.obligations x = some o) (hk : k.isWallet = false)
    (hr : b.reserves k = some r) (h : Ledger.Borrows clock k r o a r' o')
    (h₁ : b.tokens.transfer (.liquidityVault k) mint target authority a = .ok t)
    (htarget : Outside D target) :
    Exact D 0 b ⟨store b.reserves k r', store b.obligations x o', t⟩ where
  liquidity y hy := moved_out (amountIn_store_sub hr h.reserve.1 y)
    (vault_paid h₁ (htarget _ rfl hy))
  supply y := by
    have hminted := amountIn_store_same (f := (·.collateral.mintTotalSupply.toNat)) hr
      (congrArg (·.mintTotalSupply.toNat) h.reserve.2) y
    exact unburnt (congrArg₂ (· + ·) (supply_transfer h₁ _) hminted.symm)
  collateral := by
    refine collateral_moved ho rfl fun y _ hD => ?_
    have hsame := Obligation.deposited_congr (x := y) (h.frame (Pubkey.ne_default hk)).2
    exact congrArg₂ (· + ·) hsame (unpaid h₁ Pubkey.noConfusion (htarget _ rfl hD)).symm

theorem exact_repay {x : Pubkey} (hb : b.Backed) (ho : b.obligations x = some o)
    (hr : b.reserves k = some r) (hsign : user.isWallet = true)
    (h : Ledger.repay clock k r o a = .ok (r', o'))
    (h₁ : b.tokens.transfer source mint (.liquidityVault k) user a = .ok t) :
    Exact D 0 b ⟨store b.reserves k r', store b.obligations x o', t⟩ where
  liquidity y _ := moved_in (amountIn_store_add hr (Ledger.reserve_repay h).1 y)
    (vault_received hb.guarded hsign h₁ y)
  supply y := by
    have hminted := amountIn_store_same (f := (·.collateral.mintTotalSupply.toNat)) hr
      (congrArg (·.mintTotalSupply.toNat) (Ledger.reserve_repay h).2) y
    exact unburnt (congrArg₂ (· + ·) (supply_transfer h₁ _) hminted.symm)
  collateral := by
    refine collateral_moved ho rfl fun y _ _ => ?_
    have hsame := Obligation.deposited_congr (x := y) (Ledger.frame_repay h).2
    have hkept := hb.guarded.paidIn hsign h₁ (x := .collateralSupply y) rfl
    exact congrArg₂ (· + ·) hsame hkept.symm

theorem exact_seize {gate : Obligation → Result Unit} {x repayKey withdrawKey : Pubkey}
    {s : Ledger.Seizure} (hb : b.Backed) (ho : b.obligations x = some o)
    (hsign : user.isWallet = true)
    (h : Ledger.seize gate clock repayKey withdrawKey b.reserves o a = .ok s)
    (h₁ : b.tokens.transfer source mint (.liquidityVault repayKey) user s.actualRepay = .ok t₁)
    (h₂ : t₁.transfer (.collateralSupply withdrawKey) (.collateralMint withdrawKey) target
      authority s.ctokensToSeize = .ok t₂) (htarget : Outside D target) :
    Exact D 0 b ⟨s.reserves, store b.obligations x s.obligation, t₂⟩ where
  liquidity y hy := moved_in (Ledger.reserves_seize h y).1
    ((unpaid h₂ Pubkey.noConfusion (htarget _ rfl hy)).trans
      (vault_received hb.guarded hsign h₁ y))
  supply y := unburnt (congrArg₂ (· + ·) ((supply_transfer h₂ _).trans (supply_transfer h₁ _))
    (Ledger.reserves_seize h y).2.symm)
  collateral := by
    refine collateral_moved ho rfl fun y hy hD => ?_
    have hseized := (Ledger.frame_seize h).2 y (Pubkey.ne_default hy)
    have hkept := hb.guarded.paidIn hsign h₁ (x := .collateralSupply y) rfl
    exact moved_out hseized ((locked_paid h₂ (htarget _ rfl hD)).trans hkept)

end Books

namespace World

variable {mxe : Mxe} {w w' : World} {ix : Instruction} {D : List Pubkey}

/-! ## Every instruction -/

theorem exact_withdrawn {a : CollateralAccounts} {amount : U64} (hb : w.books.Backed)
    (h : w.withdrawCollateral a amount = .ok w') : Books.Exact D 0 w.books w'.books := by
  simp only [withdrawCollateral, bind_eq_ok, cpi_eq_ok, pure_eq_ok, Prod.exists] at h
  obtain ⟨m, r, o, hcheck, o', hled, t, h₁, rfl⟩ := h
  obtain ⟨hsign, hk, hmint, hvault, ho⟩ := CollateralAccounts.check_ok hcheck
  rw [hmint, hvault] at h₁
  exact Books.exact_withdrawCollateral ho hled h₁
    (Books.outside_of_owned hb.guarded hsign
      (CollateralAccounts.checked hcheck).collateral.authorityOf)

theorem exact_settled {gate : Obligation → Result Unit} {a : LiquidationAccounts} {amount : U64}
    {m : LendingMarket} {o : Obligation} {s : Ledger.Seizure} (hb : w.books.Backed)
    (hcheck : a.check w = .ok (m, o))
    (hled : Ledger.seize gate w.clock a.repayReserve a.withdrawReserve w.reserves o amount = .ok s)
    (h : w.settleSeizure a s = .ok w') :
    Books.Exact [a.liquidatorCollateralAccount] 0 w.books w'.books := by
  simp only [settleSeizure, bind_eq_ok, cpi_eq_ok, pure_eq_ok] at h
  obtain ⟨t₁, h₁, t₂, h₂, rfl⟩ := h
  obtain ⟨hsign, ho, -, hvault, hmint, hsupply⟩ := LiquidationAccounts.check_ok hcheck
  rw [hvault] at h₁
  rw [hmint, hsupply] at h₂
  exact Books.exact_seize hb ho hsign hled h₁ h₂
    (Books.outside_of_mem (List.mem_singleton_self _))

/-- Whatever an instruction does, it does to the vaults and to the books alike, unless it says
otherwise. -/
theorem exec_exact (hb : w.books.Backed) (h : w.exec mxe ix = .ok w') :
    Books.Exact ix.unrecorded ix.burns w.books w'.books := by
  cases ix with
  | deposit a amount =>
      simp only [exec, World.deposit, bind_eq_ok, cpi_eq_ok, pure_eq_ok, Prod.exists] at h
      obtain ⟨m, r, hcheck, r', c, hled, t₁, h₁, t₂, h₂, rfl⟩ := h
      obtain ⟨hsign, hr, hvault, hmint⟩ := LiquidityAccounts.check_ok hcheck
      rw [hvault] at h₁
      rw [hmint] at h₂
      exact Books.exact_deposit hb hr hsign hled h₁ h₂
        (Books.outside_of_owned hb.guarded hsign
          (LiquidityAccounts.checked hcheck).collateral.authorityOf)
  | withdraw a amount =>
      simp only [exec, World.withdraw, bind_eq_ok, cpi_eq_ok, pure_eq_ok, Prod.exists] at h
      obtain ⟨m, r, hcheck, r', l, hled, t₁, h₁, t₂, h₂, rfl⟩ := h
      obtain ⟨hsign, hr, hvault, hmint⟩ := LiquidityAccounts.check_ok hcheck
      rw [hmint] at h₁
      rw [hvault] at h₂
      exact Books.exact_withdraw hb hr hsign hled h₁ h₂
        (Books.outside_of_owned hb.guarded hsign
          (LiquidityAccounts.checked hcheck).user.authorityOf)
  | withdrawCollateral a amount => exact exact_withdrawn hb h
  | liquidate a amount =>
      simp only [exec, World.liquidate, bind_eq_ok, Prod.exists] at h
      obtain ⟨m, o, hcheck, s, hled, h⟩ := h
      exact exact_settled hb hcheck (Ledger.liquidate_ok hled) h
  | depositCollateral a amount =>
      simp only [exec, World.depositCollateral, bind_eq_ok, cpi_eq_ok, pure_eq_ok,
        Prod.exists] at h
      obtain ⟨m, r, o, hcheck, o', hled, t, h₁, rfl⟩ := h
      obtain ⟨hsign, hk, hmint, hvault, ho⟩ := CollateralAccounts.check_ok hcheck
      rw [hmint, hvault] at h₁
      exact Books.exact_depositCollateral hb ho hk hsign (Ledger.depositCollateral_ok hled) h₁
  | privateDepositCollateral a amount encrypted =>
      simp only [exec, World.privateDepositCollateral, bind_eq_ok, require_eq_ok, cpi_eq_ok,
        exists_const, pure_eq_ok, Prod.exists] at h
      obtain ⟨m, r, o, hcheck, s, -, -, o', hled, t, h₁, s', -, rfl⟩ := h
      obtain ⟨hsign, hk, hmint, hvault, ho⟩ := CollateralAccounts.check_ok hcheck
      rw [hmint, hvault] at h₁
      exact Books.exact_depositCollateral hb ho hk hsign
        (Ledger.privateDepositCollateral_ok hled) h₁
  -- a loan can be paid to any account of the token
  | borrow a amount =>
      simp only [exec, World.borrow, bind_eq_ok, cpi_eq_ok, pure_eq_ok, Prod.exists] at h
      obtain ⟨m, r, o, hcheck, r', o', hled, t, h₁, rfl⟩ := h
      obtain ⟨-, hk, hr, hvault, ho⟩ := DebtAccounts.check_ok hcheck
      rw [hvault] at h₁
      exact Books.exact_borrow ho hk hr (Ledger.borrow_ok hled) h₁
        (Books.outside_of_mem (List.mem_singleton_self _))
  | privateBorrow a amount encrypted =>
      simp only [exec, World.privateBorrow, bind_eq_ok, cpi_eq_ok, pure_eq_ok, Prod.exists] at h
      obtain ⟨m, r, o, hcheck, s, -, r', o', hled, t, h₁, s', -, rfl⟩ := h
      obtain ⟨-, hk, hr, hvault, ho⟩ := DebtAccounts.check_ok hcheck
      rw [hvault] at h₁
      exact Books.exact_borrow ho hk hr (Ledger.privateBorrow_ok hled) h₁
        (Books.outside_of_mem (List.mem_singleton_self _))
  | repay a amount =>
      simp only [exec, World.repay, bind_eq_ok, cpi_eq_ok, pure_eq_ok, Prod.exists] at h
      obtain ⟨m, r, o, hcheck, ⟨⟩, -, r', o', hled, t, h₁, rfl⟩ := h
      obtain ⟨hsign, -, hr, hvault, ho⟩ := DebtAccounts.check_ok hcheck
      rw [hvault] at h₁
      exact Books.exact_repay hb ho hr hsign hled h₁
  | executePrivateLiquidation a amount =>
      simp only [exec, World.executePrivateLiquidation, bind_eq_ok, pure_eq_ok, Prod.exists] at h
      obtain ⟨m, o, hcheck, s, -, ⟨⟩, -, seizure, hled, v, hsettle, rfl⟩ := h
      have hsettled : Books.Exact [a.liquidatorCollateralAccount] 0 w.books v.books :=
        exact_settled hb hcheck (Ledger.executePrivateLiquidation_ok hled).2 hsettle
      exact hsettled
  -- the token program's own instructions
  | mintTokens mint destination authority amount =>
      simp only [exec, World.mintTokens, bind_eq_ok, signer_eq_ok, cpi_eq_ok, exists_const,
        pure_eq_ok] at h
      obtain ⟨hsign, t, ht, rfl⟩ := h
      have hout : Books.Outside [destination] destination :=
        Books.outside_of_mem (List.mem_singleton_self _)
      refine Books.exact_tokens (fun x hx => Books.unminted ht (hout _ rfl hx))
        (fun x hx => Books.unminted ht (hout _ rfl hx)) fun x => Books.unburnt ?_
      -- a wallet cannot issue cTokens
      have hne : Pubkey.collateralMint x ≠ mint := by
        rintro rfl
        have hmarket := hb.guarded.mints _ authority rfl (TokenLedger.mintTo_ok ht).1
        exact Bool.noConfusion (hsign.symm.trans hmarket)
      have hissued := (TokenLedger.mintTo_ok ht).2.2.1 (.collateralMint x)
      rwa [if_neg hne, Nat.add_zero] at hissued
  | transferTokens source mint destination authority amount =>
      simp only [exec, World.transferTokens, bind_eq_ok, signer_eq_ok, cpi_eq_ok, exists_const,
        pure_eq_ok] at h
      obtain ⟨hsign, t, ht, rfl⟩ := h
      have hout : Books.Outside [destination] destination :=
        Books.outside_of_mem (List.mem_singleton_self _)
      have hsource {x : Pubkey} (hx : x.isWallet = false) : x ≠ source :=
        hb.guarded.ne_source hsign (TokenLedger.transfer_ok ht).1 hx
      exact Books.exact_tokens (fun x hx => Books.unpaid ht (hsource rfl) (hout _ rfl hx))
        (fun x hx => Books.unpaid ht (hsource rfl) (hout _ rfl hx))
        fun x => Books.unburnt (Books.supply_transfer ht _)
  | burnTokens mint source authority amount =>
      simp only [exec, World.burnTokens, bind_eq_ok, signer_eq_ok, cpi_eq_ok, exists_const,
        pure_eq_ok] at h
      obtain ⟨hsign, t, ht, rfl⟩ := h
      exact Books.exact_tokens (fun x _ => hb.guarded.burnt hsign ht rfl)
        (fun x _ => hb.guarded.burnt hsign ht rfl)
        fun x => (TokenLedger.burn_ok ht).2.2.1 (.collateralMint x)
  | openMint key authority =>
      simp only [exec, World.openMint, bind_eq_ok, cpi_eq_ok, pure_eq_ok] at h
      obtain ⟨_, -, t, ht, rfl⟩ := h
      obtain ⟨-, -, hsupply, hbal⟩ := TokenLedger.openMint_ok ht
      exact Books.exact_tokens (fun _ _ => hbal _) (fun _ _ => hbal _)
        fun _ => Books.unburnt (hsupply _)
  | openTokenAccount key mint authority =>
      simp only [exec, World.openTokenAccount, bind_eq_ok, cpi_eq_ok, pure_eq_ok] at h
      obtain ⟨_, -, t, ht, rfl⟩ := h
      obtain ⟨-, -, hsupply, hbal⟩ := TokenLedger.openAccount_ok ht
      exact Books.exact_tokens (fun _ _ => hbal _) (fun _ _ => hbal _)
        fun _ => Books.unburnt (hsupply _)
  | addReserve a config =>
      simp only [exec, World.addReserve, bind_eq_ok, vacant_eq_ok, seeds_eq_ok, cpi_eq_ok,
        exists_const, pure_eq_ok] at h
      obtain ⟨m, -, _, -, hnew, -, hvault, t₁, hv, hfee, t₂, hf, hmint, t₃, hm, hsupply, t₄, hs, r,
        hcreate, rfl⟩ := h
      rw [hvault] at hv
      rw [hfee] at hf
      rw [hmint] at hm
      rw [hsupply, hmint] at hs
      obtain ⟨hliquidity, hcollateral⟩ := Reserve.create_ok hcreate
      have havail : r.liquidity.availableAmount.toNat = 0 := by
        rw [hliquidity]
        rfl
      exact Books.exact_opened hnew havail (congrArg BitVec.toNat hcollateral) hv hf hm hs
  | updateReserveConfig owner market mint key config =>
      simp only [exec, World.updateReserveConfig, bind_eq_ok, pure_eq_ok] at h
      obtain ⟨m, -, r, hr, _, -, r', hupdate, rfl⟩ := h
      obtain ⟨hliquidity, hcollateral, -⟩ := Reserve.updateConfig_ok hupdate
      exact Books.exact_terms (b := w.books) (reserveOf_ok hr).1
        (congrArg (·.availableAmount) hliquidity) hcollateral
  | refreshReserve market key priceKey priceUpdate =>
      simp only [exec, World.refreshReserve, bind_eq_ok, pure_eq_ok] at h
      obtain ⟨m, -, r, hr, r', hrefresh, rfl⟩ := h
      obtain ⟨havail, hcollateral⟩ := Ledger.reserve_refresh hrefresh
      exact Books.exact_terms (b := w.books) (reserveIn_ok hr).1 havail hcollateral
  | initObligation owner market key =>
      simp only [exec, World.initObligation, bind_eq_ok, vacant_eq_ok, exists_const,
        pure_eq_ok] at h
      obtain ⟨_, -, m, -, hnew, _, -, rfl⟩ := h
      refine Books.exact_same rfl (fun _ => rfl) (fun _ => rfl) ⟨default, fun k hk => ?_⟩
      have hnone : (Obligation.init owner market).deposited k = 0 :=
        Obligation.deposited_init owner market (Pubkey.ne_default hk)
      have hsame (x : Pubkey) := amountIn_store_new (f := fun o => o.deposited k) hnew hnone x
      exact ⟨fun y _ => hsame y, hsame default⟩
  | refreshObligation market key accounts =>
      simp only [exec, World.refreshObligation, bind_eq_ok, pure_eq_ok] at h
      obtain ⟨m, -, o, ho, o', hrefresh, rfl⟩ := h
      refine Books.exact_same rfl (fun _ => rfl) (fun _ => rfl) ⟨default, fun k hk => ?_⟩
      have hsame (x : Pubkey) := amountIn_store_same (f := fun o => o.deposited k)
        (obligationIn_ok ho).1 ((Ledger.frame_refreshObligation hrefresh).2 k) x
      exact ⟨fun y _ => hsame y, hsame default⟩
  -- the rest changes the market, a private account or the clock, and none of the books
  | _ =>
      repeat (obtain ⟨_, -, h⟩ := bind_eq_ok.mp h)
      cases h
      exact .refl _ _

/-! ## Runs -/

/-- The cTokens of `k` that an instruction burns outside the program, if it goes through. -/
def burnt (mxe : Mxe) (k : Pubkey) (w : World) (ix : Instruction) : ℕ :=
  if (w.exec mxe ix).isOk then ix.burns k else 0

theorem burnt_of_ok {k : Pubkey} (h : w.exec mxe ix = .ok w') :
    burnt mxe k w ix = ix.burns k := by
  rw [burnt, h]
  rfl

/-- All of them together, along a run. -/
def burntIn (mxe : Mxe) (k : Pubkey) (w : World) (later : List Instruction) : ℕ :=
  sumSteps (tx mxe) (burnt mxe k) w later

/-- What lies in the vaults of `k` beyond the books is the same before and after `later`, if none of
it pays into them unrecorded; and the recorded supply runs ahead of the tokens in circulation by as
many as are burnt. -/
structure Balanced (mxe : Mxe) (w : World) (later : List Instruction) (k : Pubkey) (w' : World) :
    Prop where
  liquidity : (∀ ix ∈ later, Pubkey.liquidityVault k ∉ ix.unrecorded) →
    w'.books.available k + w.books.vault k = w.books.available k + w'.books.vault k
  supply : w'.books.outstanding k + w.books.minted k + burntIn mxe k w later =
    w.books.outstanding k + w'.books.minted k
  collateral : k.isWallet = false → (∀ ix ∈ later, Pubkey.collateralSupply k ∉ ix.unrecorded) →
    Follows (w.books.deposited k) (w'.books.deposited k) (w.books.locked k) (w'.books.locked k)

section Continuation

variable {later : List Instruction} {k : Pubkey}

theorem liquidity_run (hb : w.books.Backed)
    (hno : ∀ ix ∈ later, Pubkey.liquidityVault k ∉ ix.unrecorded) :
    (later.foldl (tx mxe) w).books.available k + w.books.vault k =
      w.books.available k + (later.foldl (tx mxe) w).books.vault k := by
  let Inv : World → Prop := fun v =>
    v.books.available k + w.books.vault k = w.books.available k + v.books.vault k
  have hstart : Inv w := rfl
  show Inv (later.foldl (tx mxe) w)
  apply backed_invariant later hb hstart
  intro ix hix v v' hv hfirst h
  have hlast := (exec_exact hv h).liquidity k (hno ix hix)
  show v'.books.available k + w.books.vault k = w.books.available k + v'.books.vault k
  omega

theorem collateral_run (hb : w.books.Backed) (hk : k.isWallet = false)
    (hno : ∀ ix ∈ later, Pubkey.collateralSupply k ∉ ix.unrecorded) :
    Follows (w.books.deposited k) ((later.foldl (tx mxe) w).books.deposited k)
      (w.books.locked k) ((later.foldl (tx mxe) w).books.locked k) := by
  let Inv : World → Prop := fun v =>
    Follows (w.books.deposited k) (v.books.deposited k) (w.books.locked k) (v.books.locked k)
  show Inv (later.foldl (tx mxe) w)
  apply backed_invariant later hb (.refl _ _)
  intro ix hix v v' hv hfirst h
  obtain ⟨x, hx⟩ := (exec_exact hv h).collateral
  obtain ⟨hother, hmoved⟩ := hx k hk (hno ix hix)
  exact hfirst.trans (follows_update hother hmoved)

/-- Burns add up. -/
theorem supply_run (hb : w.books.Backed) :
    (later.foldl (tx mxe) w).books.outstanding k + w.books.minted k + burntIn mxe k w later =
      w.books.outstanding k + (later.foldl (tx mxe) w).books.minted k := by
  let Inv : ℕ → World → Prop := fun n v => v.books.Backed ∧
    v.books.outstanding k + w.books.minted k + n = w.books.outstanding k + v.books.minted k
  have hstep : ∀ n v ix, Inv n v → Inv (n + burnt mxe k v ix) (v.tx mxe ix) := by
    rintro n v ix ⟨hv, hfirst⟩
    cases h : v.exec mxe ix with
    | error e =>
        rw [burnt, tx, attemptStep, h]
        exact ⟨hv, hfirst⟩
    | ok v' =>
        have hlast := (exec_exact hv h).supply k
        rw [burnt_of_ok h, tx, attemptStep, h]
        have hsupply : v'.books.outstanding k + w.books.minted k + (n + ix.burns k) =
            w.books.outstanding k + v'.books.minted k := by
          omega
        exact ⟨(exec_step h).backed hv, hsupply⟩
  have hlater := foldl_of_sumSteps hstep later 0 w ⟨hb, rfl⟩
  rw [Nat.zero_add] at hlater
  exact hlater.2

end Continuation

/-- The books are exact: in no stretch of a run does an instruction move a vault without the books,
or the books without a vault, unless it pays into the vault unrecorded; and nothing but a burn
outside the program takes cTokens out of circulation that stay on the books. -/
theorem books_balance (mxe : Mxe) (clock : Clock) (ixs later : List Instruction) (k : Pubkey) :
    Balanced mxe (ixs.foldl (tx mxe) (genesis clock)) later k
      (later.foldl (tx mxe) (ixs.foldl (tx mxe) (genesis clock))) where
  liquidity := liquidity_run (backed_run mxe clock ixs)
  supply := supply_run (backed_run mxe clock ixs)
  collateral := collateral_run (backed_run mxe clock ixs)

/-- The user borrows 1000 into an account of their own and burns 5 cTokens, of which they have 5000
left: a second burn, of 5001, fails. -/
def burningRun : List Instruction :=
  [.borrow (debtOf 1) 1000, .burnTokens (.collateralMint usdReserve) (.key 201) (.key 1) 5,
    .burnTokens (.collateralMint usdReserve) (.key 201) (.key 1) 5001]

/-- The world that it leaves. -/
def burntWorld : World := burningRun.foldl (tx plainMxe) joinedWorld

theorem books_balance_burning :
    burntWorld.books.available usdReserve + joinedWorld.books.vault usdReserve =
      joinedWorld.books.available usdReserve + burntWorld.books.vault usdReserve ∧
    burntWorld.books.outstanding usdReserve + joinedWorld.books.minted usdReserve + 5 =
      joinedWorld.books.outstanding usdReserve + burntWorld.books.minted usdReserve ∧
    Follows (joinedWorld.books.deposited usdReserve) (burntWorld.books.deposited usdReserve)
      (joinedWorld.books.locked usdReserve) (burntWorld.books.locked usdReserve) := by
  have hbalanced := books_balance plainMxe ⟨0, 0⟩ joinedRun burningRun usdReserve
  have hburnt : burntIn plainMxe usdReserve joinedWorld burningRun = 5 := by decide +kernel
  have hsupply := hbalanced.supply
  rw [show joinedRun.foldl (tx plainMxe) (genesis ⟨0, 0⟩) = joinedWorld from rfl, hburnt] at hsupply
  exact ⟨hbalanced.liquidity (by decide), hsupply, hbalanced.collateral rfl (by decide)⟩

/-- The exception is real: a loan can be paid into the vault that it comes from. -/
example : ([.borrow { debtOf 1 with userTokenAccount := .liquidityVault usdReserve }
    1000].foldl (tx plainMxe) joinedWorld).tokens.balance (.liquidityVault usdReserve) =
      9000 + 1000 := by
  decide +kernel

end World

end VeilVault
