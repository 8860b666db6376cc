/-
# VeilVault.World.Links — every reference leads somewhere.

Accounts refer to one another by address: a reserve to its market, its mint, its three token
accounts and its cToken mint, an obligation to its market and, slot by slot, to reserves.  Handlers
follow these references without asking again whether the two ends belong together.  They do, in
every reachable world (`Linked`): a reserve lives at the address derived from its own fields, its
token accounts exist under its market's authority with the mints the handlers pass, its
configuration is one that `validate` accepts, and a slot in use names an existing reserve of the
obligation's own market.
-/
import VeilVault.World.Changes
import VeilVault.World.Holders

namespace VeilVault

open Kit

/-! ## Reserves keep their accounts -/

namespace Reserve

variable {r r' : Reserve} {k : Pubkey} {a s : U64}

/-- The addresses a reserve refers to. -/
structure SameAccounts (r r' : Reserve) : Prop where
  lendingMarket : r'.lendingMarket = r.lendingMarket
  mint : r'.liquidity.mint = r.liquidity.mint
  supplyVault : r'.liquidity.supplyVault = r.liquidity.supplyVault
  feeVault : r'.liquidity.feeVault = r.liquidity.feeVault
  mintPda : r'.collateral.mintPda = r.collateral.mintPda
  supplyVaultPda : r'.collateral.supplyVaultPda = r.collateral.supplyVaultPda

theorem SameAccounts.trans {r'' : Reserve} (h : r.SameAccounts r') (h' : r'.SameAccounts r'') :
    r.SameAccounts r'' :=
  ⟨h'.lendingMarket.trans h.lendingMarket, h'.mint.trans h.mint,
    h'.supplyVault.trans h.supplyVault, h'.feeVault.trans h.feeVault, h'.mintPda.trans h.mintPda,
    h'.supplyVaultPda.trans h.supplyVaultPda⟩

theorem sameAccounts_accrueInterest (h : r.accrueInterest s = .ok r') : r.SameAccounts r' := by
  rcases accrueInterest_ok h with ⟨-, rfl⟩ | ⟨-, bps, -, ⟨-, rfl⟩ | ⟨-, l', hl, rfl⟩⟩
  · exact ⟨rfl, rfl, rfl, rfl, rfl, rfl⟩
  · exact ⟨rfl, rfl, rfl, rfl, rfl, rfl⟩
  · obtain ⟨-, -, -, d, i, f, -, -, -, rfl⟩ := ReserveLiquidity.accuredInterest_ok hl
    exact ⟨rfl, rfl, rfl, rfl, rfl, rfl⟩

theorem sameAccounts_move (h : r.Move r') : r.SameAccounts r' := by
  cases h with
  | stay | price => exact ⟨rfl, rfl, rfl, rfl, rfl, rfl⟩
  | deposit h =>
      obtain ⟨-, -, v, n, -, -, rfl⟩ := depositLiquidity_ok h
      exact ⟨rfl, rfl, rfl, rfl, rfl, rfl⟩
  | redeem h =>
      obtain ⟨-, v, n, -, -, rfl⟩ := redeemCollateral_ok h
      exact ⟨rfl, rfl, rfl, rfl, rfl, rfl⟩
  | borrow h =>
      obtain ⟨-, l', hl, rfl⟩ := borrow_ok.mp h
      obtain ⟨v, d, -, -, rfl⟩ := ReserveLiquidity.borrow_ok.mp hl
      exact ⟨rfl, rfl, rfl, rfl, rfl, rfl⟩
  | repay h =>
      obtain ⟨l', hl, rfl⟩ := repay_ok.mp h
      obtain ⟨v, d, -, -, rfl⟩ := ReserveLiquidity.repay_ok.mp hl
      exact ⟨rfl, rfl, rfl, rfl, rfl, rfl⟩

/-- A reserve's fields name its address and its accounts, and its configuration is a valid one. -/
structure WellFormed (r : Reserve) (k : Pubkey) : Prop where
  key : k = .reserve r.lendingMarket r.liquidity.mint
  supplyVault : r.liquidity.supplyVault = .liquidityVault k
  feeVault : r.liquidity.feeVault = .feeVault k
  mintPda : r.collateral.mintPda = .collateralMint k
  supplyVaultPda : r.collateral.supplyVaultPda = .collateralSupply k
  config : r.config.validate = .ok ()

theorem WellFormed.of_same (h : r.WellFormed k) (hsame : r.SameAccounts r')
    (hconfig : r'.config.validate = .ok ()) : r'.WellFormed k where
  key := by
    rw [hsame.lendingMarket, hsame.mint]
    exact h.key
  supplyVault := hsame.supplyVault.trans h.supplyVault
  feeVault := hsame.feeVault.trans h.feeVault
  mintPda := hsame.mintPda.trans h.mintPda
  supplyVaultPda := hsame.supplyVaultPda.trans h.supplyVaultPda
  config := hconfig

theorem validate_init {params : InitReserveConfigParams} {c : ReserveConfig}
    (h : ReserveConfig.init params = .ok c) : c.validate = .ok () := by
  simp only [ReserveConfig.init, bind_eq_ok, pure_eq_ok] at h
  obtain ⟨⟨⟩, hvalid, rfl⟩ := h
  exact hvalid

theorem wellFormed_create {slot : U64} {market mint : Pubkey} {params : InitReserveConfigParams}
    (h : create slot market (.reserve market mint) mint params = .ok r) :
    r.WellFormed (.reserve market mint) := by
  simp only [create, bind_eq_ok, pure_eq_ok] at h
  obtain ⟨c, hc, rfl⟩ := h
  exact ⟨rfl, rfl, rfl, rfl, rfl, validate_init hc⟩

end Reserve

/-- A reserve's token accounts and its mint, under its market's authority. -/
structure ReserveAccounts (t : TokenLedger Pubkey) (k market mint : Pubkey) : Prop where
  underlying : ∃ c, t.mints mint = some c
  liquidityVault : ∃ n, t.accounts (.liquidityVault k) = some ⟨mint, market, n⟩
  feeVault : ∃ n, t.accounts (.feeVault k) = some ⟨mint, market, n⟩
  collateralMint : ∃ n, t.mints (.collateralMint k) = some ⟨market, n⟩
  collateralSupply : ∃ n,
    t.accounts (.collateralSupply k) = some ⟨.collateralMint k, market, n⟩

section ReserveAccounts

variable {t t' t₁ t₂ t₃ t₄ : TokenLedger Pubkey} {k market mint : Pubkey}

theorem ReserveAccounts.mono (h : ReserveAccounts t k market mint)
    (haccounts : t.KeepsAccounts t') (hmints : t.KeepsMints t') :
    ReserveAccounts t' k market mint where
  underlying := by
    obtain ⟨c, hc⟩ := h.underlying
    exact ⟨_, (hmints _ _ hc).choose_spec⟩
  liquidityVault := by
    obtain ⟨n, hn⟩ := h.liquidityVault
    exact haccounts _ _ hn
  feeVault := by
    obtain ⟨n, hn⟩ := h.feeVault
    exact haccounts _ _ hn
  collateralMint := by
    obtain ⟨n, hn⟩ := h.collateralMint
    exact hmints _ _ hn
  collateralSupply := by
    obtain ⟨n, hn⟩ := h.collateralSupply
    exact haccounts _ _ hn

theorem reserveAccounts_open (h₁ : t.openAccount (.liquidityVault k) mint market = .ok t₁)
    (h₂ : t₁.openAccount (.feeVault k) mint market = .ok t₂)
    (h₃ : t₂.openMint (.collateralMint k) market = .ok t₃)
    (h₄ : t₃.openAccount (.collateralSupply k) (.collateralMint k) market = .ok t₄) :
    ReserveAccounts t₄ k market mint := by
  obtain ⟨c, hc⟩ : ∃ c, t.mints mint = some c := by
    simp only [TokenLedger.openAccount, bind_eq_ok, orFail_eq_ok] at h₁
    obtain ⟨-, -, c, hc, -⟩ := h₁
    exact ⟨c, hc⟩
  -- each record is as it was opened, because the later calls keep it
  let Calls := TokenLedger.Calls fun _ : Pubkey => False
  have hthird : Calls t₃ t₄ := .single (.openAccount h₄)
  have hsecond : Calls t₂ t₄ := .head (.openMint h₃) hthird
  have hfirst : Calls t₁ t₄ := .head (.openAccount h₂) hsecond
  have hall : Calls t t₄ := .head (.openAccount h₁) hfirst
  exact ⟨⟨_, (hall.keepsMints _ _ hc).choose_spec⟩,
    hfirst.keepsAccounts _ _ (TokenLedger.account_openAccount h₁),
    hsecond.keepsAccounts _ _ (TokenLedger.account_openAccount h₂),
    hthird.keepsMints _ _ (TokenLedger.mint_openMint h₃),
    ⟨_, TokenLedger.account_openAccount h₄⟩⟩

end ReserveAccounts

/-! ## Slots keep their reserves -/

namespace Obligation

variable {o o' : Obligation} {P Q : Pubkey → Prop} {k : Pubkey}

/-- Every slot in use names a reserve with `P`. -/
structure Names (P : Pubkey → Prop) (o : Obligation) : Prop where
  deposits : ∀ i : Fin maxDepositsCountInReserve, depositLayout.Live o.deposits[i] →
    P o.deposits[i].depositReserve
  borrows : ∀ i : Fin maxBorrowCountInReserve, borrowLayout.Live o.borrows[i] →
    P o.borrows[i].borrowReserve

theorem Names.imp (h : o.Names P) (himp : ∀ k, P k → Q k) : o.Names Q :=
  ⟨fun i hl => himp _ (h.deposits i hl), fun i hl => himp _ (h.borrows i hl)⟩

theorem names_init (owner market : Pubkey) : (init owner market).Names P := by
  have hdeposits : ∀ i : Fin maxDepositsCountInReserve,
      ¬ depositLayout.Live (Vector.replicate maxDepositsCountInReserve default)[i] := by decide
  have hborrows : ∀ i : Fin maxBorrowCountInReserve,
      ¬ borrowLayout.Live (Vector.replicate maxBorrowCountInReserve default)[i] := by decide
  exact ⟨fun i hl => absurd hl (hdeposits i), fun i hl => absurd hl (hborrows i)⟩

theorem Names.setDeposit (h : o.Names P) (i : Fin maxDepositsCountInReserve)
    {c : ObligationCollateral} (hc : depositLayout.Live c → P c.depositReserve) :
    (o.setDeposit i c).Names P :=
  ⟨forall_set (P := fun c => depositLayout.Live c → P c.depositReserve) h.deposits hc, h.borrows⟩

theorem Names.setBorrow (h : o.Names P) (i : Fin maxBorrowCountInReserve)
    {b : ObligationLiquidity} (hb : borrowLayout.Live b → P b.borrowReserve) :
    (o.setBorrow i b).Names P :=
  ⟨h.deposits, forall_set (P := fun b => borrowLayout.Live b → P b.borrowReserve) h.borrows hb⟩

theorem Names.deposit {a : U64} (h : o.Names P) (hk : k ≠ default) (hP : P k)
    (hdep : (o.deposit k a).commit = .ok o') : o'.Names P := by
  obtain ⟨-, ⟨i, d, -, -, rfl⟩ | ⟨i, -, rfl⟩⟩ := deposit_ok hk hdep
  · exact h.setDeposit i (h.deposits i)
  · obtain ⟨hdeposits, hborrows⟩ := h.setDeposit i
      (c := { ObligationCollateral.init k with depositedAmount := a }) fun _ => hP
    exact ⟨hdeposits, hborrows⟩

theorem Names.withdraw {a : U64} (h : o.Names P) (hwd : (o.withdraw k a).commit = .ok o') :
    o'.Names P := by
  obtain ⟨-, i, -, ⟨-, rfl⟩ | ⟨left, -, -, rfl⟩⟩ := withdraw_ok hwd
  · obtain ⟨hdeposits, hborrows⟩ := h.setDeposit i (c := default)
      fun hl => absurd hl depositLayout_default
    exact ⟨hdeposits, hborrows⟩
  · exact h.setDeposit i (h.deposits i)

theorem Names.borrow {a c : U128} (h : o.Names P) (hk : k ≠ default) (hP : P k)
    (hbor : (o.borrow k a c).commit = .ok o') : o'.Names P := by
  obtain ⟨-, ⟨i, d, -, -, rfl⟩ | ⟨i, d, -, -, -, -, rfl⟩⟩ := borrow_ok hk hbor
  · exact h.setBorrow i (h.borrows i)
  · obtain ⟨hdeposits, hborrows⟩ := h.setBorrow i
      (b := { ObligationLiquidity.init k c with borrowedAmountSf := d }) fun _ => hP
    exact ⟨hdeposits, hborrows⟩

theorem Names.repay {a : U128} (h : o.Names P) (hrep : (o.repay k a).commit = .ok o') :
    o'.Names P := by
  obtain ⟨-, i, -, left, -, ⟨-, rfl⟩ | rfl⟩ := repay_ok hrep
  · obtain ⟨hdeposits, hborrows⟩ := h.setBorrow i (b := default)
      fun hl => absurd hl borrowLayout_default
    exact ⟨hdeposits, hborrows⟩
  · exact h.setBorrow i (h.borrows i)

theorem Names.accrueInterest {i : Fin maxBorrowCountInReserve} {c : U128} (h : o.Names P)
    (hacc : (o.accrueInterest i c).commit = .ok o') : o'.Names P := by
  rcases accrueInterest_ok hacc with rfl | ⟨-, -, -, d, -, rfl⟩
  · exact h
  · exact h.setBorrow i (h.borrows i)

theorem Names.accrueExisting {c : U128} (h : o.Names P) (hacc : o.accrueExisting k c = .ok o') :
    o'.Names P := by
  unfold Obligation.accrueExisting at hacc
  split at hacc
  case h_1 => exact h.accrueInterest hacc
  case h_2 =>
    cases hacc
    exact h

theorem Names.refresh {reserves : Pubkey → Option Reserve} {accounts : List Pubkey} {clock : Clock}
    (h : o.Names P) (hrefresh : Ledger.refreshObligation reserves accounts clock o = .ok o') :
    o'.Names P := by
  obtain ⟨-, hgrown, hrevalued⟩ := Ledger.refreshObligation_ok hrefresh
  constructor
  · intro i hl
    have hkey := (hrevalued i).1
    rw [hkey]
    exact h.deposits i fun hfree => hl (hkey.trans hfree)
  · intro i hl
    have hkey := (hgrown i).1
    rw [hkey]
    exact h.borrows i fun hfree => hl (hkey.trans hfree)

end Obligation

namespace World

variable {mxe : Mxe} {w w' : World} {ix : Instruction} {k x : Pubkey} {r r' : Reserve}
  {o o' : Obligation}

/-! ## Accounts persist -/

/-- No change of a reserve moves its accounts. -/
theorem ReserveChange.sameAccounts (h : w.ReserveChange ix k r r') (hr : w.reserves k = some r) :
    r.SameAccounts r' := by
  rcases h.steps hr with ⟨-, -, -, config, -, -, -, -, hupdate⟩ | ⟨r₁, hacc, hmove⟩
  · simp only [Reserve.updateConfig, bind_eq_ok, pure_eq_ok] at hupdate
    obtain ⟨c, hc, rfl⟩ := hupdate
    exact ⟨rfl, rfl, rfl, rfl, rfl, rfl⟩
  · exact (Reserve.sameAccounts_accrueInterest hacc).trans (Reserve.sameAccounts_move hmove)

/-- Each change leaves a valid configuration. -/
theorem ReserveChange.config_valid (h : w.ReserveChange ix k r r') (hr : w.reserves k = some r)
    (hvalid : r.config.validate = .ok ()) : r'.config.validate = .ok () := by
  rcases h.steps hr with ⟨-, -, -, config, -, -, -, -, hupdate⟩ | ⟨r₁, hacc, hmove⟩
  · simp only [Reserve.updateConfig, bind_eq_ok, pure_eq_ok] at hupdate
    obtain ⟨c, hc, rfl⟩ := hupdate
    exact Reserve.validate_init hc
  · rw [hmove.sameInterest.config, (Reserve.accrues_of_ok hacc).config]
    exact hvalid

theorem reserve_persists (h : w.exec mxe ix = .ok w') (hr : w.reserves k = some r) :
    ∃ r', w'.reserves k = some r' ∧ r.SameAccounts r' := by
  obtain ⟨r', hr', rfl | hchange⟩ := exec_reserve_at h hr
  · exact ⟨r', hr', rfl, rfl, rfl, rfl, rfl, rfl⟩
  · exact ⟨r', hr', hchange.sameAccounts hr⟩

theorem market_persists (h : w.exec mxe ix = .ok w') {M : Pubkey}
    (hm : ∃ m, w.markets M = some m) : ∃ m, w'.markets M = some m := by
  rcases exec_market h M with hsame | ⟨_, _, -, -, -, -, hm'⟩ | ⟨_, m', -, -, hm'⟩
  · rw [hsame]
    exact hm
  · exact ⟨_, hm'⟩
  · exact ⟨m', hm'⟩

theorem ObligationChange.sameHolder (h : w.ObligationChange ix x o o') : o.SameHolder o' := by
  cases h with
  | refresh _ h => exact (Ledger.frame_refreshObligation h).1
  | deposit hown _ _ h => exact Obligation.sameHolder_deposit hown.ne_default h
  | withdraw _ h => exact (Ledger.frame_withdrawCollateral h).1
  | borrow hown _ _ h => exact (h.frame hown.ne_default).1
  | repay _ h => exact (Ledger.frame_repay h).1
  | seize _ h => exact (Ledger.frame_seize h).1

/-- A change adds at most its own reserve to those the slots name. -/
theorem ObligationChange.names {P : Pubkey → Prop} (h : w.ObligationChange ix x o o')
    (ho : o.Names P) (hP : ∀ M user k m r, w.Own ix x M user k m r → P k) : o'.Names P := by
  cases h with
  | refresh _ h => exact ho.refresh h
  | deposit hown _ _ h => exact ho.deposit hown.ne_default (hP _ _ _ _ _ hown) h
  | withdraw hown h =>
      obtain ⟨i, mv, -, -, hwd, -⟩ := Ledger.withdrawCollateral_ok h
      have hrevalued := ho.setDeposit i (c := { o.deposits[i] with marketValueSf := mv })
        (ho.deposits i)
      exact hrevalued.withdraw hwd
  | borrow hown _ _ h =>
      obtain ⟨r₁, o₁, -, -, hacc, hbor⟩ := h.steps
      exact (ho.accrueExisting hacc).borrow hown.ne_default (hP _ _ _ _ _ hown) hbor
  | repay hown h =>
      obtain ⟨r₁, i, o₁, -, -, -, hacc, hrep⟩ := Ledger.repay_ok h
      exact (ho.accrueInterest hacc).repay hrep
  | seize hseize h =>
      obtain ⟨p, p₁, q, q₁, i, j, o₁, hparts⟩ := Ledger.seize_parts h
      obtain ⟨o₂, hrep, hwd⟩ := hparts.obligation
      exact ((ho.accrueInterest hparts.accrued).repay hrep).withdraw hwd

theorem addReserve_accounts {a : AddReserveAccounts} {config : InitReserveConfigParams}
    (h : w.addReserve a config = .ok w') :
    ReserveAccounts w'.tokens a.reserve a.lendingMarket a.reserveMint := by
  simp only [addReserve, bind_eq_ok, seeds_eq_ok, cpi_eq_ok, exists_const, pure_eq_ok] at h
  obtain ⟨-, -, -, -, -, -, -, hv, t₁, h₁, hf, t₂, h₂, hm, t₃, h₃, hs, t₄, h₄, -, -, rfl⟩ := h
  rw [hv] at h₁
  rw [hf] at h₂
  rw [hm] at h₃
  rw [hs, hm] at h₄
  exact reserveAccounts_open h₁ h₂ h₃ h₄

/-! ## The invariant -/

/-- References lead to accounts that belong together. -/
structure Linked (w : World) : Prop where
  wellFormed : ∀ k r, w.reserves k = some r → r.WellFormed k
  accounts : ∀ k r, w.reserves k = some r →
    ReserveAccounts w.tokens k r.lendingMarket r.liquidity.mint
  reserveMarket : ∀ k r, w.reserves k = some r → ∃ m, w.markets r.lendingMarket = some m
  obligationMarket : ∀ x o, w.obligations x = some o → ∃ m, w.markets o.lendingMarket = some m
  slots : ∀ x o, w.obligations x = some o →
    o.Names fun k => ∃ r, w.reserves k = some r ∧ r.lendingMarket = o.lendingMarket

/-- The market a user's instruction names is the reserve's own, and the obligation's. -/
theorem Own.markets {M user : Pubkey} {m : LendingMarket} (hown : w.Own ix x M user k m r)
    (hw : w.Linked) (ha : w.Addressed) (ho : w.obligations x = some o) :
    r.lendingMarket = M ∧ o.lendingMarket = M ∧ o.owner = user := by
  obtain ⟨mint, hk⟩ := hown.key
  have hkey := (hw.wellFormed k r hown.reserve).key.symm.trans hk
  have haddress := (ha.obligations x o ho).symm.trans hown.obligation
  rw [Pubkey.reserve.injEq] at hkey
  rw [Pubkey.obligation.injEq] at haddress
  exact ⟨hkey.1, haddress⟩

theorem Linked.reserve_of_exec (hw : w.Linked) (h : w.exec mxe ix = .ok w')
    (hr' : w'.reserves k = some r') : r'.WellFormed k ∧
      ReserveAccounts w'.tokens k r'.lendingMarket r'.liquidity.mint ∧
      ∃ m, w'.markets r'.lendingMarket = some m := by
  have hcalls := exec_calls h
  -- a reserve of the same accounts keeps what it had
  have hold {r : Reserve} (hr : w.reserves k = some r) (hsame : r.SameAccounts r') :
      ReserveAccounts w'.tokens k r'.lendingMarket r'.liquidity.mint ∧
        ∃ m, w'.markets r'.lendingMarket = some m := by
    rw [hsame.lendingMarket, hsame.mint]
    exact ⟨(hw.accounts k r hr).mono hcalls.keepsAccounts hcalls.keepsMints,
      market_persists h (hw.reserveMarket k r hr)⟩
  rcases exec_reserve h k with hkeep | ⟨q, ⟨a, config, m, rfl, hm, -, rfl, hkey, -, hcreate⟩, hq⟩ |
    ⟨r, q, hr, hchange, hq⟩
  · have hr : w.reserves k = some r' := hkeep ▸ hr'
    exact ⟨hw.wellFormed k r' hr, hold hr ⟨rfl, rfl, rfl, rfl, rfl, rfl⟩⟩
  · cases hq.symm.trans hr'
    have hwell := Reserve.wellFormed_create (hkey ▸ hcreate)
    have hfields := hkey.symm.trans (hkey ▸ hwell.key)
    rw [Pubkey.reserve.injEq] at hfields
    rw [← hfields.1, ← hfields.2]
    exact ⟨hkey ▸ hwell, addReserve_accounts h,
      market_persists h ⟨m, (ownedMarket_eq_ok.mp hm).2.1⟩⟩
  · cases hq.symm.trans hr'
    have hsame := hchange.sameAccounts hr
    exact ⟨(hw.wellFormed k r hr).of_same hsame
      (hchange.config_valid hr (hw.wellFormed k r hr).config), hold hr hsame⟩

theorem Linked.obligation_of_exec (hw : w.Linked) (ha : w.Addressed) (h : w.exec mxe ix = .ok w')
    (ho' : w'.obligations x = some o') : (∃ m, w'.markets o'.lendingMarket = some m) ∧
      o'.Names fun k => ∃ r, w'.reserves k = some r ∧ r.lendingMarket = o'.lendingMarket := by
  have hpersist {M : Pubkey} (k : Pubkey) (hk : ∃ r, w.reserves k = some r ∧ r.lendingMarket = M) :
      ∃ r, w'.reserves k = some r ∧ r.lendingMarket = M := by
    obtain ⟨r, hr, hM⟩ := hk
    obtain ⟨r', hr', hsame⟩ := reserve_persists h hr
    exact ⟨r', hr', hsame.lendingMarket.trans hM⟩
  have hold (ho : w.obligations x = some o') : (∃ m, w'.markets o'.lendingMarket = some m) ∧
      o'.Names fun k => ∃ r, w'.reserves k = some r ∧ r.lendingMarket = o'.lendingMarket :=
    ⟨market_persists h (hw.obligationMarket x o' ho), (hw.slots x o' ho).imp hpersist⟩
  rcases exec_obligation h with hsame | ⟨y, owner, M, m, -, -, hm, -, -, hstore⟩ |
    ⟨y, o, q, ho, hchange, hstore⟩
  · exact hold (hsame ▸ ho')
  · by_cases hx : x = y
    · rw [hstore, hx, store_self] at ho'
      cases ho'
      exact ⟨market_persists h ⟨m, (market_ok hm).1⟩, Obligation.names_init _ _⟩
    · exact hold (by rw [← ho', hstore, store_of_ne _ _ hx])
  · by_cases hx : x = y
    · subst hx
      rw [hstore, store_self] at ho'
      cases ho'
      have hmarket := hchange.sameHolder.lendingMarket
      rw [hmarket]
      refine ⟨market_persists h (hw.obligationMarket x o ho), ?_⟩
      refine (hchange.names (hw.slots x o ho) fun M user k m r hown => ?_).imp hpersist
      obtain ⟨hr, ho, -⟩ := hown.markets hw ha ho
      exact ⟨r, hown.reserve, hr.trans ho.symm⟩
    · exact hold (by rw [← ho', hstore, store_of_ne _ _ hx])

theorem Linked.exec (hw : w.Linked) (ha : w.Addressed) (h : w.exec mxe ix = .ok w') :
    w'.Linked where
  wellFormed _ _ hr := (hw.reserve_of_exec h hr).1
  accounts _ _ hr := (hw.reserve_of_exec h hr).2.1
  reserveMarket _ _ hr := (hw.reserve_of_exec h hr).2.2
  obligationMarket _ _ ho := (hw.obligation_of_exec ha h ho).1
  slots _ _ ho := (hw.obligation_of_exec ha h ho).2

/-! ## Runs -/

theorem Addressed.exec (ha : w.Addressed) (h : w.exec mxe ix = .ok w') : w'.Addressed :=
  ⟨addressed_obligations ha (exec_step h), addressed_privates ha h⟩

theorem linked_run (mxe : Mxe) (clock : Clock) (ixs : List Instruction) :
    (ixs.foldl (tx mxe) (genesis clock)).Linked := by
  let Inv : World → Prop := fun w => w.Addressed ∧ w.Linked
  have hstart : Inv (genesis clock) := ⟨⟨nofun, nofun⟩, nofun, nofun, nofun, nofun, nofun⟩
  have hrun : Inv (ixs.foldl (tx mxe) (genesis clock)) :=
    run_invariant ixs hstart fun ix _ v v' hv h => ⟨hv.1.exec h, hv.2.exec hv.1 h⟩
  exact hrun.2

/-- The pool's first user has joined. -/
def joinedRun : List Instruction := openPool ++ join 1

def joinedWorld : World := joinedRun.foldl (tx plainMxe) (genesis ⟨0, 0⟩)

end World

end VeilVault
