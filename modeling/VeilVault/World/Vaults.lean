/-
# VeilVault.World.Vaults — the token accounts hold at least what the books say.

Three inequalities, for every reserve: the liquidity vault against the available amount, the
collateral vault against all deposits of its cTokens together, the recorded cToken supply against
the tokens in circulation.  Each step moves both sides of each by matching amounts (`Pays`), because
what leaves a vault is written off in the same instruction, and what is written up was paid by
somebody who is not the vault: vaults are under a market's authority, and markets do not sign
(`Guarded`).
-/
import VeilVault.Kit.Covers
import VeilVault.World.Effects

namespace VeilVault

open Kit

/-! ## Authorities -/

/-- Token accounts and mints at derived addresses are under derived authorities. -/
structure Guarded (t : TokenLedger Pubkey) : Prop where
  accounts : ∀ x a, x.isWallet = false → t.authorityOf x = some a → a.isWallet = false
  mints : ∀ m a, m.isWallet = false → t.mintAuthority m = some a → a.isWallet = false

section Authorities

variable {t t' : TokenLedger Pubkey} {source mint destination key authority : Pubkey} {amount : U64}

theorem Guarded.of_same (hg : Guarded t) (h : t.SameAuthorities t') : Guarded t' := by
  constructor
  · intro x a hx ha
    exact hg.accounts x a hx (h.accounts x ▸ ha)
  · intro m a hm ha
    exact hg.mints m a hm (h.mints m ▸ ha)

/-- Opening an account keeps this, when a derived address gets a derived authority. -/
theorem Guarded.openAccount (hg : Guarded t)
    (hkey : key.isWallet = false → authority.isWallet = false)
    (h : t.openAccount key mint authority = .ok t') : Guarded t' := by
  obtain ⟨hacc, hmint, -, -⟩ := TokenLedger.openAccount_ok h
  constructor
  · intro x a hx ha
    rw [hacc] at ha
    split at ha
    case isTrue he =>
      cases ha
      exact hkey (he ▸ hx)
    case isFalse => exact hg.accounts x a hx ha
  · intro m a hm ha
    exact hg.mints m a hm (hmint m ▸ ha)

theorem Guarded.openMint (hg : Guarded t) (hkey : key.isWallet = false → authority.isWallet = false)
    (h : t.openMint key authority = .ok t') : Guarded t' := by
  obtain ⟨hacc, hmint, -, -⟩ := TokenLedger.openMint_ok h
  constructor
  · intro x a hx ha
    exact hg.accounts x a hx (hacc x ▸ ha)
  · intro m a hm ha
    rw [hmint] at ha
    split at ha
    case isTrue he =>
      cases ha
      exact hkey (he ▸ hm)
    case isFalse => exact hg.mints m a hm ha

theorem Guarded.ne_source (hg : Guarded t) (hsign : authority.isWallet = true)
    (hauth : t.authorityOf source = some authority) {x : Pubkey} (hx : x.isWallet = false) :
    x ≠ source := by
  intro he
  have hcon := hg.accounts x authority hx (he ▸ hauth)
  rw [hsign] at hcon
  cases hcon

/-- What a wallet pays does not come from a derived account. -/
theorem Guarded.paidIn (hg : Guarded t) (hsign : authority.isWallet = true)
    (h : t.transfer source mint destination authority amount = .ok t') {x : Pubkey}
    (hx : x.isWallet = false) :
    t'.balance x = t.balance x + (if x = destination then amount.toNat else 0) := by
  obtain ⟨hauth, -, -, hbal⟩ := TokenLedger.transfer_ok h
  have hx' := hbal x
  rw [if_neg (hg.ne_source hsign hauth hx)] at hx'
  exact hx'

/-- What a wallet burns was not in a derived account. -/
theorem Guarded.burnt (hg : Guarded t) (hsign : authority.isWallet = true)
    (h : t.burn mint source authority amount = .ok t') {x : Pubkey} (hx : x.isWallet = false) :
    t'.balance x = t.balance x := by
  obtain ⟨hauth, -, -, hbal⟩ := TokenLedger.burn_ok h
  have hx' := hbal x
  rw [if_neg (hg.ne_source hsign hauth hx)] at hx'
  exact hx'

/-- Whatever the destination is, only the source can have lost. -/
theorem paidOut (h : t.transfer source mint destination authority amount = .ok t') (x : Pubkey) :
    t.balance x ≤ t'.balance x + (if x = source then amount.toNat else 0) := by
  obtain ⟨-, -, -, hbal⟩ := TokenLedger.transfer_ok h
  rw [hbal x]
  exact Nat.le_add_right _ _

theorem paidOut_of_ne (h : t.transfer source mint destination authority amount = .ok t')
    {x : Pubkey} (hx : x ≠ source) : t.balance x ≤ t'.balance x := by
  have hout := paidOut h x
  rw [if_neg hx] at hout
  exact hout

theorem balance_mintTo_le (h : t.mintTo mint destination authority amount = .ok t') (x : Pubkey) :
    t.balance x ≤ t'.balance x := by
  obtain ⟨-, -, -, hbal⟩ := TokenLedger.mintTo_ok h
  rw [hbal x]
  exact Nat.le_add_right _ _

/-- Holders can pay into derived accounts and destroy derived tokens, nothing else. -/
structure Donates (t t' : TokenLedger Pubkey) : Prop where
  guarded : Guarded t'
  balance : ∀ x, x.isWallet = false → t.balance x ≤ t'.balance x
  supply : ∀ m, m.isWallet = false → t'.supply m ≤ t.supply m

theorem Guarded.walletCall (hg : Guarded t) (h : WalletCall t t') : Donates t t' := by
  cases h with
  | openMint hkey h =>
      obtain ⟨-, -, hsupply, hbal⟩ := TokenLedger.openMint_ok h
      refine ⟨hg.openMint (fun hk => ?_) h, fun x _ => (hbal x).ge, fun m _ => (hsupply m).le⟩
      rw [hkey] at hk
      cases hk
  | openAccount hkey h =>
      obtain ⟨-, -, hsupply, hbal⟩ := TokenLedger.openAccount_ok h
      refine ⟨hg.openAccount (fun hk => ?_) h, fun x _ => (hbal x).ge, fun m _ => (hsupply m).le⟩
      rw [hkey] at hk
      cases hk
  | @mintTo mint destination authority amount t' hsign h =>
      obtain ⟨hauth, hsame, hsupply, -⟩ := TokenLedger.mintTo_ok h
      refine ⟨hg.of_same hsame, fun x _ => balance_mintTo_le h x, fun m hm => ?_⟩
      -- the mint answers to a wallet, so it is not a derived one
      have hne : m ≠ mint := by
        intro he
        have hcon := hg.mints m authority hm (he ▸ hauth)
        rw [hsign] at hcon
        cases hcon
      rw [hsupply m, if_neg hne, Nat.add_zero]
  | transfer hsign h =>
      obtain ⟨-, hsame, hsupply, -⟩ := TokenLedger.transfer_ok h
      refine ⟨hg.of_same hsame, fun x hx => ?_, fun m _ => (hsupply m).le⟩
      rw [hg.paidIn hsign h hx]
      exact Nat.le_add_right _ _
  | burn hsign h =>
      obtain ⟨-, hsame, hsupply, -⟩ := TokenLedger.burn_ok h
      refine ⟨hg.of_same hsame, fun x hx => (hg.burnt hsign h hx).ge, fun m _ => ?_⟩
      rw [← hsupply m]
      exact Nat.le_add_right _ _

/-- The four accounts of a new reserve, all under its market. -/
theorem opened {k market : Pubkey} {t₁ t₂ t₃ t₄ : TokenLedger Pubkey}
    (h₁ : t.openAccount (.liquidityVault k) mint market = .ok t₁)
    (h₂ : t₁.openAccount (.feeVault k) mint market = .ok t₂)
    (h₃ : t₂.openMint (.collateralMint k) market = .ok t₃)
    (h₄ : t₃.openAccount (.collateralSupply k) (.collateralMint k) market = .ok t₄)
    (hg : Guarded t) (hmarket : market.isWallet = false) : Donates t t₄ := by
  obtain ⟨-, -, hsupply₁, hbal₁⟩ := TokenLedger.openAccount_ok h₁
  obtain ⟨-, -, hsupply₂, hbal₂⟩ := TokenLedger.openAccount_ok h₂
  obtain ⟨-, -, hsupply₃, hbal₃⟩ := TokenLedger.openMint_ok h₃
  obtain ⟨-, -, hsupply₄, hbal₄⟩ := TokenLedger.openAccount_ok h₄
  have hg₁ := hg.openAccount (fun _ => hmarket) h₁
  have hg₂ := hg₁.openAccount (fun _ => hmarket) h₂
  have hg₃ := hg₂.openMint (fun _ => hmarket) h₃
  refine ⟨hg₃.openAccount (fun _ => hmarket) h₄, fun x _ => ?_, fun m _ => ?_⟩
  · rw [hbal₄, hbal₃, hbal₂, hbal₁]
  · rw [hsupply₄, hsupply₃, hsupply₂, hsupply₁]

end Authorities

/-! ## The books -/

namespace Books

variable (b : Books) (k : Pubkey)

def available : ℕ := amountIn (·.liquidity.availableAmount.toNat) b.reserves k

/-- The cToken supply the reserve records. -/
def minted : ℕ := amountIn (·.collateral.mintTotalSupply.toNat) b.reserves k

/-- The deposits of one obligation in the reserve's cTokens. -/
def deposited (x : Pubkey) : ℕ := amountIn (·.deposited k) b.obligations x

/-- The balance of the liquidity vault. -/
def vault : ℕ := b.tokens.balance (.liquidityVault k)

/-- The balance of the collateral vault. -/
def locked : ℕ := b.tokens.balance (.collateralSupply k)

/-- The cTokens in circulation. -/
def outstanding : ℕ := b.tokens.supply (.collateralMint k)

/-- What is kept by every step. -/
structure Backed : Prop where
  keys : ∀ k r, b.reserves k = some r → k.isWallet = false
  guarded : Guarded b.tokens
  available : ∀ k, b.available k ≤ b.vault k
  supply : ∀ k, b.outstanding k ≤ b.minted k
  collateral : ∀ k, k.isWallet = false → Covers (b.deposited k) (b.locked k)

/-- At most one obligation's deposits change, and by no more than the vault allows. -/
def CollateralGap (b' : Books) : Prop :=
  ∃ x, ∀ k, k.isWallet = false → (∀ y, y ≠ x → b'.deposited k y = b.deposited k y) ∧
    b'.deposited k x + b.locked k ≤ b.deposited k x + b'.locked k

variable {b k} {b' : Books} {clock : Clock} {accrued : List Pubkey}

/-! ### One step -/

theorem vault_paidIn {t t' : TokenLedger Pubkey} {source mint user : Pubkey} {a : U64}
    (hg : Guarded t) (hsign : user.isWallet = true)
    (h : t.transfer source mint (.liquidityVault k) user a = .ok t') (x : Pubkey) :
    t.balance (.liquidityVault x) + (if x = k then a.toNat else 0) ≤
      t'.balance (.liquidityVault x) := by
  have hin := hg.paidIn hsign h (x := .liquidityVault x) rfl
  simp only [Pubkey.liquidityVault.injEq] at hin
  exact hin.ge

theorem vault_paidOut {t t' : TokenLedger Pubkey} {target mint authority : Pubkey} {a : U64}
    (h : t.transfer (.liquidityVault k) mint target authority a = .ok t') (x : Pubkey) :
    t.balance (.liquidityVault x) ≤
      t'.balance (.liquidityVault x) + (if x = k then a.toNat else 0) := by
  have hout := paidOut h (.liquidityVault x)
  simp only [Pubkey.liquidityVault.injEq] at hout
  exact hout

/-- What is written up came in, what is written off went out. -/
theorem Step.available_gap (hb : b.Backed) (h : Step clock b accrued b') (k : Pubkey) :
    b'.available k + b.vault k ≤ b.available k + b'.vault k := by
  have hg := hb.guarded
  cases h with
  | idle => exact le_refl _
  | wallet h => exact Nat.add_le_add_left ((hg.walletCall h).balance _ rfl) _
  | addReserve hmarket hk hnew hcreate h₁ h₂ h₃ h₄ =>
      apply Nat.add_le_add (le_of_eq _) ((opened h₁ h₂ h₃ h₄ hg hmarket).balance _ rfl)
      apply amountIn_store_new hnew
      rw [(Reserve.create_ok hcreate).1]
      rfl
  | updateConfig hr h =>
      apply Nat.add_le_add_right (le_of_eq _)
      apply amountIn_store_same hr
      rw [(Reserve.updateConfig_ok h).1]
  | refreshReserve hr h =>
      apply Nat.add_le_add_right (le_of_eq _)
      apply amountIn_store_same hr
      rw [(Ledger.reserve_refresh h).1]
  | deposit hr hsign h h₁ h₂ =>
      apply gap_in (amountIn_store_add hr (Ledger.reserve_deposit h).1 k).le
      exact (vault_paidIn hg hsign h₁ k).trans (balance_mintTo_le h₂ _)
  | withdraw hr hsign h h₁ h₂ =>
      apply gap_out (amountIn_store_sub hr (Ledger.reserve_withdraw h).1 k).le
      exact (hg.burnt hsign h₁ rfl).ge.trans (vault_paidOut h₂ k)
  | initObligation => exact le_refl _
  | refreshObligation => exact le_refl _
  | depositCollateral ho hk hsign h h₁ =>
      apply Nat.add_le_add_left
      have hin := hg.paidIn hsign h₁ (x := .liquidityVault k) rfl
      exact Nat.le.intro hin.symm
  -- cTokens move, and the vault of the underlying token sees nothing of it
  | withdrawCollateral ho hk h h₁ =>
      exact Nat.add_le_add_left (paidOut_of_ne h₁ Pubkey.noConfusion) _
  | borrow ho hk hr h h₁ =>
      exact gap_out (amountIn_store_sub hr h.reserve.1 k).le (vault_paidOut h₁ k)
  | repay ho hk hr hsign h h₁ =>
      exact gap_in (amountIn_store_add hr (Ledger.reserve_repay h).1 k).le
        (vault_paidIn hg hsign h₁ k)
  | seize ho hsign h h₁ h₂ =>
      apply gap_in (Ledger.reserves_seize h k).1.le
      exact (vault_paidIn hg hsign h₁ k).trans (paidOut_of_ne h₂ Pubkey.noConfusion)

theorem supply_transfer {t t' : TokenLedger Pubkey} {source mint target authority : Pubkey}
    {a : U64} (h : t.transfer source mint target authority a = .ok t') (m : Pubkey) :
    t'.supply m = t.supply m := (TokenLedger.transfer_ok h).2.2.1 m

theorem supply_issued {t t' : TokenLedger Pubkey} {target authority : Pubkey} {a : U64}
    (h : t.mintTo (.collateralMint k) target authority a = .ok t') (x : Pubkey) :
    t'.supply (.collateralMint x) =
      t.supply (.collateralMint x) + (if x = k then a.toNat else 0) := by
  have hissued := (TokenLedger.mintTo_ok h).2.2.1 (.collateralMint x)
  simp only [Pubkey.collateralMint.injEq] at hissued
  exact hissued

theorem supply_struckOff {t t' : TokenLedger Pubkey} {source user : Pubkey} {a : U64}
    (h : t.burn (.collateralMint k) source user a = .ok t') (x : Pubkey) :
    t'.supply (.collateralMint x) + (if x = k then a.toNat else 0) =
      t.supply (.collateralMint x) := by
  have hburnt := (TokenLedger.burn_ok h).2.2.1 (.collateralMint x)
  simp only [Pubkey.collateralMint.injEq] at hburnt
  exact hburnt

/-- cTokens are recorded when they are issued, and struck off when they are burnt. -/
theorem Step.supply_gap (hb : b.Backed) (h : Step clock b accrued b') (k : Pubkey) :
    b'.outstanding k + b.minted k ≤ b.outstanding k + b'.minted k := by
  have hg := hb.guarded
  cases h with
  | idle => exact le_refl _
  | wallet h => exact Nat.add_le_add_right ((hg.walletCall h).supply _ rfl) _
  | addReserve hmarket hk hnew hcreate h₁ h₂ h₃ h₄ =>
      apply Nat.add_le_add ((opened h₁ h₂ h₃ h₄ hg hmarket).supply _ rfl) (ge_of_eq _)
      apply amountIn_store_new hnew
      rw [(Reserve.create_ok hcreate).2]
      rfl
  | updateConfig hr h =>
      apply Nat.add_le_add_left (ge_of_eq _)
      apply amountIn_store_same hr
      rw [(Reserve.updateConfig_ok h).2.1]
  | refreshReserve hr h =>
      apply Nat.add_le_add_left (ge_of_eq _)
      apply amountIn_store_same hr
      rw [(Ledger.reserve_refresh h).2]
  -- these two mint and burn what they record; all others only transfer
  | deposit hr hsign h h₁ h₂ =>
      apply gap_in _ (amountIn_store_add hr (Ledger.reserve_deposit h).2 k).ge
      exact ((supply_issued h₂ k).trans (congrArg (· + _) (supply_transfer h₁ _))).le
  | withdraw hr hsign h h₁ h₂ =>
      apply gap_out _ (amountIn_store_sub hr (Ledger.reserve_withdraw h).2 k).ge
      exact ((congrArg (· + _) (supply_transfer h₂ _)).trans (supply_struckOff h₁ k)).le
  | initObligation => exact le_refl _
  | refreshObligation => exact le_refl _
  | depositCollateral ho hk hsign h h₁ => exact Nat.add_le_add_right (supply_transfer h₁ _).le _
  | withdrawCollateral ho hk h h₁ => exact Nat.add_le_add_right (supply_transfer h₁ _).le _
  | borrow ho hk hr h h₁ =>
      apply Nat.add_le_add (supply_transfer h₁ _).le (ge_of_eq _)
      apply amountIn_store_same hr
      rw [h.reserve.2]
  | repay ho hk hr hsign h h₁ =>
      apply Nat.add_le_add (supply_transfer h₁ _).le (ge_of_eq _)
      apply amountIn_store_same hr
      rw [(Ledger.reserve_repay h).2]
  | seize ho hsign h h₁ h₂ =>
      apply Nat.add_le_add _ (Ledger.reserves_seize h k).2.ge
      exact ((supply_transfer h₂ _).trans (supply_transfer h₁ _)).le

/-- A step that leaves obligations alone, and takes nothing out of a collateral vault. -/
theorem collateral_untouched (ho : b'.obligations = b.obligations)
    (hv : ∀ k, b.locked k ≤ b'.locked k) : b.CollateralGap b' := by
  refine ⟨default, fun k _ => ?_⟩
  have hdep (x : Pubkey) : b'.deposited k x = b.deposited k x := by
    rw [deposited, ho, deposited]
  exact ⟨fun y _ => hdep y, Nat.add_le_add (hdep _).le (hv k)⟩

/-- A step that changes one obligation. -/
theorem collateral_changed {x : Pubkey} {o o' : Obligation} (ho : b.obligations x = some o)
    (ho' : b'.obligations = store b.obligations x o')
    (hgap : ∀ k, k.isWallet = false →
      o'.deposited k + b.locked k ≤ o.deposited k + b'.locked k) : b.CollateralGap b' := by
  refine ⟨x, fun k hk => ⟨fun y hy => ?_, ?_⟩⟩
  · rw [deposited, ho', amountIn_store, if_neg hy, deposited]
  · rw [deposited, ho', amountIn_store, if_pos rfl, deposited, amountIn_of ho]
    exact hgap k hk

theorem locked_paidIn {t t' : TokenLedger Pubkey} {source mint user : Pubkey} {a : U64}
    (hg : Guarded t) (hsign : user.isWallet = true)
    (h : t.transfer source mint (.collateralSupply k) user a = .ok t') (x : Pubkey) :
    t.balance (.collateralSupply x) + (if x = k then a.toNat else 0) ≤
      t'.balance (.collateralSupply x) := by
  have hin := hg.paidIn hsign h (x := .collateralSupply x) rfl
  simp only [Pubkey.collateralSupply.injEq] at hin
  exact hin.ge

theorem locked_paidOut {t t' : TokenLedger Pubkey} {target mint authority : Pubkey} {a : U64}
    (h : t.transfer (.collateralSupply k) mint target authority a = .ok t') (x : Pubkey) :
    t.balance (.collateralSupply x) ≤
      t'.balance (.collateralSupply x) + (if x = k then a.toNat else 0) := by
  have hout := paidOut h (.collateralSupply x)
  simp only [Pubkey.collateralSupply.injEq] at hout
  exact hout

/-- Deposits grow by what came into the collateral vault, and shrink by what left it. -/
theorem Step.collateral_gap (hb : b.Backed) (h : Step clock b accrued b') : b.CollateralGap b' := by
  have hg := hb.guarded
  cases h with
  | idle => exact collateral_untouched rfl fun _ => le_refl _
  | wallet h => exact collateral_untouched rfl fun _ => (hg.walletCall h).balance _ rfl
  | addReserve hmarket hk hnew hcreate h₁ h₂ h₃ h₄ =>
      exact collateral_untouched rfl fun _ => (opened h₁ h₂ h₃ h₄ hg hmarket).balance _ rfl
  | updateConfig => exact collateral_untouched rfl fun _ => le_refl _
  | refreshReserve => exact collateral_untouched rfl fun _ => le_refl _
  -- supplying the pool and cashing in touch the depositor's own accounts, not this vault
  | deposit hr hsign h h₁ h₂ =>
      refine collateral_untouched rfl fun k => ?_
      have hin := hg.paidIn hsign h₁ (x := .collateralSupply k) rfl
      exact (Nat.le.intro hin.symm).trans (balance_mintTo_le h₂ _)
  | withdraw hr hsign h h₁ h₂ =>
      refine collateral_untouched rfl fun k => ?_
      exact (hg.burnt hsign h₁ rfl).ge.trans (paidOut_of_ne h₂ Pubkey.noConfusion)
  | @initObligation x owner market hx hnew =>
      refine ⟨x, fun k hk => ⟨fun y hy => ?_, le_of_eq ?_⟩⟩
      · show amountIn _ (store b.obligations x _) y = _
        rw [amountIn_store, if_neg hy, deposited]
      · have hnone : (Obligation.init owner market).deposited k = 0 :=
          Obligation.deposited_init owner market (Pubkey.ne_default hk)
        have hsame := amountIn_store_new (f := fun o => o.deposited k) hnew hnone x
        exact congrArg (· + b.locked k) hsame
  | refreshObligation ho h =>
      apply collateral_changed ho rfl
      intro k _
      exact Nat.add_le_add_right ((Ledger.frame_refreshObligation h).2 k).le _
  -- the slot and the vault move by the same amount
  | depositCollateral ho hk hsign h h₁ =>
      apply collateral_changed ho rfl
      intro x hx
      exact gap_in (Obligation.deposited_deposit (Pubkey.ne_default hk) h
        (Pubkey.ne_default hx)).le (locked_paidIn hg hsign h₁ x)
  | withdrawCollateral ho hk h h₁ =>
      apply collateral_changed ho rfl
      intro x hx
      exact gap_out ((Ledger.frame_withdrawCollateral h).2 x (Pubkey.ne_default hx)).le
        (locked_paidOut h₁ x)
  -- loans are paid in the underlying token, and leave the cTokens where they are
  | borrow ho hk hr h h₁ =>
      apply collateral_changed ho rfl
      intro x _
      have hsame := Obligation.deposited_congr (x := x) (h.frame (Pubkey.ne_default hk)).2
      exact Nat.add_le_add hsame.le (paidOut_of_ne h₁ Pubkey.noConfusion)
  | repay ho hk hr hsign h h₁ =>
      apply collateral_changed ho rfl
      intro x _
      have hsame := Obligation.deposited_congr (x := x) (Ledger.frame_repay h).2
      have hin := hg.paidIn hsign h₁ (x := .collateralSupply x) rfl
      exact Nat.add_le_add hsame.le (Nat.le.intro hin.symm)
  | seize ho hsign h h₁ h₂ =>
      apply collateral_changed ho rfl
      intro x hx
      have hin := hg.paidIn hsign h₁ (x := .collateralSupply x) rfl
      exact gap_out ((Ledger.frame_seize h).2 x (Pubkey.ne_default hx)).le
        ((Nat.le.intro hin.symm).trans (locked_paidOut h₂ x))

theorem Step.keys (hb : b.Backed) (h : Step clock b accrued b') :
    ∀ k r, b'.reserves k = some r → k.isWallet = false := by
  cases h with
  | idle | wallet | initObligation | refreshObligation | depositCollateral
  | withdrawCollateral => exact hb.keys
  | addReserve hmarket hk => exact forall_store hb.keys hk
  | updateConfig hr => exact forall_store hb.keys (hb.keys _ _ hr)
  | refreshReserve hr => exact forall_store hb.keys (hb.keys _ _ hr)
  | deposit hr => exact forall_store hb.keys (hb.keys _ _ hr)
  | withdraw hr => exact forall_store hb.keys (hb.keys _ _ hr)
  | borrow ho hk => exact forall_store hb.keys hk
  | repay ho hk => exact forall_store hb.keys hk
  | seize ho hsign h h₁ h₂ =>
      obtain ⟨r, r₁, q, q₁, i, o₁, o₂, r₂, r₃, hr, -, hq, -, -, -, -, -, hr₂, -, hs⟩ :=
        Ledger.seize_ok h
      have hrepay := hb.keys _ _ hr
      have hfirst := forall_store (a := r₁) hb.keys hrepay
      have hsecond := forall_store (a := q₁) hfirst (hfirst _ _ hq)
      show ∀ k r, _ = some r → _
      rw [hs]
      exact forall_store hsecond hrepay

theorem Step.guarded (hb : b.Backed) (h : Step clock b accrued b') : Guarded b'.tokens := by
  have hg := hb.guarded
  have htransfer {t t' : TokenLedger Pubkey} {source mint target authority : Pubkey} {a : U64}
      (hg : Guarded t) (h : t.transfer source mint target authority a = .ok t') : Guarded t' :=
    hg.of_same (TokenLedger.transfer_ok h).2.1
  cases h with
  | idle | updateConfig | refreshReserve | initObligation | refreshObligation => exact hg
  | wallet h => exact (hg.walletCall h).guarded
  | addReserve hmarket hk hnew hcreate h₁ h₂ h₃ h₄ =>
      exact (opened h₁ h₂ h₃ h₄ hg hmarket).guarded
  | deposit hr hsign h h₁ h₂ => exact (htransfer hg h₁).of_same (TokenLedger.mintTo_ok h₂).2.1
  | withdraw hr hsign h h₁ h₂ => exact htransfer (hg.of_same (TokenLedger.burn_ok h₁).2.1) h₂
  | depositCollateral ho hk hsign h h₁ => exact htransfer hg h₁
  | withdrawCollateral ho hk h h₁ => exact htransfer hg h₁
  | borrow ho hk hr h h₁ => exact htransfer hg h₁
  | repay ho hk hr hsign h h₁ => exact htransfer hg h₁
  | seize ho hsign h h₁ h₂ => exact htransfer (htransfer hg h₁) h₂

/-- The books stay backed. -/
theorem Step.backed (hb : b.Backed) (h : Step clock b accrued b') : b'.Backed where
  keys := h.keys hb
  guarded := h.guarded hb
  available k := by
    have hgap := h.available_gap hb k
    have hle := hb.available k
    omega
  supply k := by
    have hgap := h.supply_gap hb k
    have hle := hb.supply k
    omega
  collateral k hk := by
    obtain ⟨x, hx⟩ := h.collateral_gap hb
    exact (hb.collateral k hk).update (hx k hk).1 (Nat.zero_le _) (hx k hk).2

end Books

/-! ## Runs -/

namespace World

theorem backed_genesis (clock : Clock) : (genesis clock).books.Backed where
  keys _ _ h := by cases h
  guarded := ⟨fun _ _ _ h => (by cases h), fun _ _ _ h => (by cases h)⟩
  available _ := le_refl _
  supply _ := le_refl _
  collateral _ _ := covers_zero fun _ => rfl

theorem backed_run (mxe : Mxe) (clock : Clock) (ixs : List Instruction) :
    (ixs.foldl (tx mxe) (genesis clock)).books.Backed := by
  let Inv : World → Prop := fun w => w.books.Backed
  show Inv (ixs.foldl (tx mxe) (genesis clock))
  apply run_invariant ixs (backed_genesis clock)
  intro ix _ w w' hw h
  exact (exec_step h).backed hw

/-- What every step keeps while the books are backed, a run keeps. -/
theorem backed_invariant {mxe : Mxe} {Inv : World → Prop} {w : World} (ixs : List Instruction)
    (hb : w.books.Backed) (hw : Inv w) (hkeep : ∀ ix ∈ ixs, ∀ v v', v.books.Backed → Inv v →
      v.exec mxe ix = .ok v' → Inv v') : Inv (ixs.foldl (tx mxe) w) := by
  let Both : World → Prop := fun v => v.books.Backed ∧ Inv v
  have hboth : Both (ixs.foldl (tx mxe) w) := by
    apply run_invariant ixs ⟨hb, hw⟩
    intro ix hix v v' hv h
    exact ⟨(exec_step h).backed hv.1, hkeep ix hix v v' hv.1 hv.2 h⟩
  exact hboth.2

/-- In every run, and for every reserve that exists at its end: the liquidity vault holds at least
the available amount, the collateral vault at least all deposits of the reserve's cTokens, and no
more cTokens circulate than the reserve records. -/
theorem vaults_back_books (mxe : Mxe) (clock : Clock) (ixs : List Instruction) (w : World)
    (hrun : ixs.foldl (tx mxe) (genesis clock) = w) (k : Pubkey) (r : Reserve)
    (hr : w.reserves k = some r) :
    r.liquidity.availableAmount.toNat ≤ w.tokens.balance (.liquidityVault k) ∧
      (∀ users : Finset Pubkey, ∑ x ∈ users, amountIn (·.deposited k) w.obligations x ≤
        w.tokens.balance (.collateralSupply k)) ∧
      w.tokens.supply (.collateralMint k) ≤ r.collateral.mintTotalSupply.toNat := by
  have hb : w.books.Backed := hrun ▸ backed_run mxe clock ixs
  have hr' : w.books.reserves k = some r := hr
  refine ⟨?_, hb.collateral k (hb.keys k r hr), ?_⟩
  · have havail := hb.available k
    rw [Books.available, amountIn_of hr'] at havail
    exact havail
  · have hsupply := hb.supply k
    rw [Books.minted, amountIn_of hr'] at hsupply
    exact hsupply

/-! ## A pool -/

section Pool

def usd : Pubkey := .key 2
def oracle : Pubkey := .key 3
def poolMarket : Pubkey := .lendingMarket (.key 1)
def usdReserve : Pubkey := .reserve poolMarket usd

/-- Twenty percent a year, whatever the utilization. -/
def flatRate : InitReserveConfigParams where
  status := 0
  minBorrowRateBps := 2000
  optimalBorrowRateBps := 2000
  maxBorrowRateBps := 2000
  optimalUtilizationBps := 8000
  loanToValuePct := 70
  liquidationThresholdPct := 80
  liquidationBonusPct := 500
  depositLimit := 1000000
  borrowLimit := 1000000
  protocolFee := 0
  pythOracle := oracle

/-- One dollar, as of a time. -/
def oneDollar (publishTime : Int64) : PriceUpdate :=
  { fullyVerified := true, price := 100000000, conf := 10, exponent := -8, publishTime }

/-- The `n`-th user's accounts for the pool: dollars at `key (n + 100)`, cTokens at
`key (n + 200)`. -/
def liquidityOf (n : Nat) : LiquidityAccounts where
  depositor := .key n
  lendingMarket := poolMarket
  reserve := usdReserve
  reserveMint := usd
  liquidityVault := .liquidityVault usdReserve
  collateralMint := .collateralMint usdReserve
  userTokenAccount := .key (n + 100)
  userCollateralAccount := .key (n + 200)

def collateralOf (n : Nat) : CollateralAccounts where
  depositor := .key n
  lendingMarket := poolMarket
  reserve := usdReserve
  reserveMint := usd
  collateralMint := .collateralMint usdReserve
  userCollateralAccount := .key (n + 200)
  collateralSupplyVault := .collateralSupply usdReserve
  obligation := .obligation poolMarket (.key n)

def debtOf (n : Nat) : DebtAccounts where
  borrower := .key n
  lendingMarket := poolMarket
  obligation := .obligation poolMarket (.key n)
  reserve := usdReserve
  reserveMint := usd
  liquidityVault := .liquidityVault usdReserve
  userTokenAccount := .key (n + 100)

/-- The first user creates the market, the mint and the reserve. -/
def openPool : List Instruction :=
  [.initializeMarket (.key 1) poolMarket 0, .openMint usd (.key 1),
    .addReserve
      { owner := .key 1
        lendingMarket := poolMarket
        reserve := usdReserve
        reserveMint := usd
        liquidityVault := .liquidityVault usdReserve
        feeVault := .feeVault usdReserve
        collateralMint := .collateralMint usdReserve
        collateralSupplyVault := .collateralSupply usdReserve } flatRate]

def refreshPool (time : Int64) : Instruction :=
  .refreshReserve poolMarket usdReserve oracle (some (oneDollar time))

def refreshUser (n : Nat) : Instruction :=
  .refreshObligation poolMarket (.obligation poolMarket (.key n)) [usdReserve]

/-- A user arrives with 10000 dollars, deposits them, and posts half of the cTokens. -/
def join (n : Nat) : List Instruction :=
  [.openTokenAccount (.key (n + 100)) usd (.key n),
    .openTokenAccount (.key (n + 200)) (.collateralMint usdReserve) (.key n),
    .mintTokens usd (.key (n + 100)) (.key 1) 10000, .deposit (liquidityOf n) 10000,
    .initObligation (.key n) poolMarket (.obligation poolMarket (.key n)),
    .depositCollateral (collateralOf n) 5000, refreshPool 0, refreshUser n]

def eur : Pubkey := .key 4
def eurReserve : Pubkey := .reserve poolMarket eur

/-- A second reserve, and an account of the second user's with 1000 of its cTokens. -/
def openSecond : List Instruction :=
  [.openMint eur (.key 1),
    .addReserve
      { owner := .key 1
        lendingMarket := poolMarket
        reserve := eurReserve
        reserveMint := eur
        liquidityVault := .liquidityVault eurReserve
        feeVault := .feeVault eurReserve
        collateralMint := .collateralMint eurReserve
        collateralSupplyVault := .collateralSupply eurReserve } flatRate,
    .openTokenAccount (.key 302) eur (.key 2),
    .openTokenAccount (.key 402) (.collateralMint eurReserve) (.key 2),
    .mintTokens eur (.key 302) (.key 1) 1000,
    .deposit
      { depositor := .key 2
        lendingMarket := poolMarket
        reserve := eurReserve
        reserveMint := eur
        liquidityVault := .liquidityVault eurReserve
        collateralMint := .collateralMint eurReserve
        userTokenAccount := .key 302
        userCollateralAccount := .key 402 } 1000]

/-- A user joins, borrows 1000, donates 7 to the vault and burns 5 cTokens. -/
def donation : List Instruction :=
  openPool ++ join 1 ++ [.borrow (debtOf 1) 1000,
    .transferTokens (.key 101) usd (.liquidityVault usdReserve) (.key 1) 7,
    .burnTokens (.collateralMint usdReserve) (.key 201) (.key 1) 5]

theorem vaults_back_books_donation : ∃ w r,
    donation.foldl (tx plainMxe) (genesis ⟨0, 0⟩) = w ∧ w.reserves usdReserve = some r ∧
      r.liquidity.availableAmount = 9000 ∧
      r.liquidity.availableAmount.toNat ≤ w.tokens.balance (.liquidityVault usdReserve) ∧
      w.tokens.supply (.collateralMint usdReserve) ≤ r.collateral.mintTotalSupply.toNat := by
  have hsome : ((donation.foldl (tx plainMxe) (genesis ⟨0, 0⟩)).reserves usdReserve).any
      (fun r => r.liquidity.availableAmount = 9000) = true := by decide +kernel
  obtain ⟨r, hr, havail⟩ := (Option.any_eq_true _ _).mp hsome
  obtain ⟨hvault, -, hsupply⟩ := vaults_back_books plainMxe ⟨0, 0⟩ donation _ rfl usdReserve r hr
  exact ⟨_, r, rfl, hr, of_decide_eq_true havail, hvault, hsupply⟩

end Pool

end World

end VeilVault
