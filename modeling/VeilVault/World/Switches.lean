/-
# VeilVault.World.Switches — what the owner's two switches stop.

`is_paused` stops a market: while it is set no deposit, withdrawal, loan or liquidation goes
through, so whatever is run that does not clear it leaves the market's liquidity, its users'
collateral and its cTokens where they were (`paused_run`).  Repayments are let through, and so are
refreshes.

A reserve's `status` stops one reserve, for payments in both directions.  Until its owner updates
the configuration its books do not move but for interest, and its debts can be neither repaid nor
liquidated: each stands where it is and grows (`inactive_run`).
-/
import VeilVault.Ledger.Standing
import VeilVault.World.Isolation

namespace VeilVault

open Kit

namespace World

variable {mxe : Mxe} {w w' v : World} {ix : Instruction} {M k x : Pubkey} {m : LendingMarket}

/-! ## A paused market -/

/-- While a market is paused it signs no token call. -/
theorem unsigned_of_paused (hm : w.markets M = some m) (hpaused : m.isPaused = true)
    (hM : M.isWallet = false) (h : w.exec mxe ix = .ok w') : ¬ ix.signed M := by
  have hlive {m' : LendingMarket} (hm' : w.market M = .ok m') (hopen : m'.isPaused = false) :
      False := by
    cases hm.symm.trans (market_ok hm').1
    rw [hpaused] at hopen
    cases hopen
  rintro (hsigner | hmarket)
  · have hwallet := exec_signer h hsigner
    rw [hM] at hwallet
    cases hwallet
  · cases ix with
    | deposit a amount =>
        cases hmarket
        simp only [exec, World.deposit, bind_eq_ok, Prod.exists] at h
        obtain ⟨m', r, hcheck, r', c, hled, -⟩ := h
        exact hlive (LiquidityAccounts.check_names hcheck).market (Ledger.deposit_switches hled).1
    | withdraw a amount =>
        cases hmarket
        simp only [exec, World.withdraw, bind_eq_ok, Prod.exists] at h
        obtain ⟨m', r, hcheck, r', l, hled, -⟩ := h
        exact hlive (LiquidityAccounts.check_names hcheck).market (Ledger.withdraw_switches hled).1
    | withdrawCollateral a amount =>
        cases hmarket
        simp only [exec, World.withdrawCollateral, bind_eq_ok, Prod.exists] at h
        obtain ⟨m', r, o, hcheck, o', hled, -⟩ := h
        exact hlive (CollateralAccounts.check_names hcheck).1.market
          (Ledger.withdrawCollateral_unpaused hled)
    | borrow a amount =>
        cases hmarket
        simp only [exec, World.borrow, bind_eq_ok, Prod.exists] at h
        obtain ⟨m', r, o, hcheck, r', o', hled, -⟩ := h
        exact hlive (DebtAccounts.check_names hcheck).1.market (Ledger.borrow_switches hled).1
    | privateBorrow a amount encrypted =>
        cases hmarket
        simp only [exec, World.privateBorrow, bind_eq_ok, Prod.exists] at h
        obtain ⟨m', r, o, hcheck, s, -, r', o', hled, -⟩ := h
        exact hlive (DebtAccounts.check_names hcheck).1.market
          (Ledger.privateBorrow_switches hled).1
    | liquidate a amount =>
        cases hmarket
        simp only [exec, World.liquidate, bind_eq_ok, Prod.exists] at h
        obtain ⟨m', o, hcheck, s, hled, -⟩ := h
        exact hlive (LiquidationAccounts.check_names hcheck).1 (Ledger.liquidate_unpaused hled)
    | executePrivateLiquidation a amount =>
        cases hmarket
        simp only [exec, World.executePrivateLiquidation, bind_eq_ok, Prod.exists] at h
        obtain ⟨m', o, hcheck, _, -, _, -, s, hled, -⟩ := h
        exact hlive (LiquidationAccounts.check_names hcheck).1
          (Ledger.executePrivateLiquidation_unpaused hled)
    | _ => cases hmarket

/-- What a paused market keeps: its switch, its reserves with their liquidity and their cTokens, its
users' collateral, the tokens in its vaults; and nobody owes anything new. -/
structure Stopped (M : Pubkey) (w w' : World) : Prop where
  market : ∀ m, w.markets M = some m → m.isPaused = true →
    ∃ m', w'.markets M = some m' ∧ m'.isPaused = true
  noReserve : ∀ mint, w.reserves (.reserve M mint) = none → w'.reserves (.reserve M mint) = none
  reserves : ∀ mint r, w.reserves (.reserve M mint) = some r →
    ∃ r', w'.reserves (.reserve M mint) = some r' ∧
      r.liquidity.availableAmount.toNat ≤ r'.liquidity.availableAmount.toNat ∧
      r'.collateral.mintTotalSupply = r.collateral.mintTotalSupply
  obligations : ∀ user o, w.obligations (.obligation M user) = some o →
    ∃ o', w'.obligations (.obligation M user) = some o' ∧
      Slotwise Ledger.Revalued o.deposits o'.deposits ∧
      Slotwise ObligationLiquidity.Settling o.borrows o'.borrows
  tokens : w.tokens.Spared M w'.tokens

theorem Stopped.refl (M : Pubkey) (w : World) : Stopped M w w :=
  ⟨fun m hm hp => ⟨m, hm, hp⟩, fun _ h => h, fun _ r hr => ⟨r, hr, le_refl _, rfl⟩,
    fun _ o ho => ⟨o, ho, slotwise_refl (fun _ => ⟨rfl, rfl⟩) _,
      slotwise_refl ObligationLiquidity.settling_refl _⟩, TokenLedger.spared_refl _ _⟩

theorem Stopped.trans (h : Stopped M w w') (h' : Stopped M w' v) : Stopped M w v where
  market m hm hp := by
    obtain ⟨m', hm', hp'⟩ := h.market m hm hp
    exact h'.market m' hm' hp'
  noReserve mint hnone := h'.noReserve mint (h.noReserve mint hnone)
  reserves mint r hr := by
    obtain ⟨r', hr', hle, hsupply⟩ := h.reserves mint r hr
    obtain ⟨r'', hr'', hle', hsupply'⟩ := h'.reserves mint r' hr'
    exact ⟨r'', hr'', hle.trans hle', hsupply'.trans hsupply⟩
  obligations user o ho := by
    obtain ⟨o', ho', hdeposits, hborrows⟩ := h.obligations user o ho
    obtain ⟨o'', ho'', hdeposits', hborrows'⟩ := h'.obligations user o' ho'
    refine ⟨o'', ho'', fun i => ?_, hborrows.trans (fun _ _ _ => ObligationLiquidity.Settling.trans)
      hborrows'⟩
    exact ⟨(hdeposits' i).1.trans (hdeposits i).1, (hdeposits' i).2.trans (hdeposits i).2⟩
  tokens := h.tokens.trans h'.tokens

/-- The books of a paused market's reserve: interest, prices, terms and repayments. -/
theorem ReserveChange.stopped {mint : Pubkey} {r r' : Reserve} (hw : w.Linked)
    (h : w.ReserveChange ix (.reserve M mint) r r') (hr : w.reserves (.reserve M mint) = some r)
    (hm : w.markets M = some m) (hpaused : m.isPaused = true) :
    r.liquidity.availableAmount.toNat ≤ r'.liquidity.availableAmount.toNat ∧
      r'.collateral.mintTotalSupply = r.collateral.mintTotalSupply := by
  have hlive {M' mint' : Pubkey} {m' : LendingMarket} (hm' : w.market M' = .ok m')
      (hkey : Pubkey.reserve M mint = .reserve M' mint') (hopen : m'.isPaused = false) : False := by
    rw [Pubkey.reserve.injEq] at hkey
    rw [← hkey.1] at hm'
    cases hm.symm.trans (market_ok hm').1
    rw [hpaused] at hopen
    cases hopen
  cases h with
  | config _ _ _ h =>
      obtain ⟨hliquidity, hcollateral, -⟩ := Reserve.updateConfig_ok h
      exact ⟨by rw [hliquidity], by rw [hcollateral]⟩
  | refresh _ _ h =>
      obtain ⟨r₁, p, t, hacc, rfl⟩ := Ledger.refreshReserve_ok h
      have haccrued := Reserve.accrues_of_ok hacc
      exact ⟨(congrArg BitVec.toNat haccrued.available).ge, congrArg _ haccrued.collateral⟩
  | repay _ h =>
      obtain ⟨r₁, i, o₁, hacc, hrep, -, -, -⟩ := Ledger.repay_ok h
      have haccrued := Reserve.accrues_of_ok hacc
      obtain ⟨l', hl, rfl⟩ := Reserve.repay_ok.mp hrep
      obtain ⟨v, d, hv, -, rfl⟩ := ReserveLiquidity.repay_ok.mp hl
      refine ⟨?_, congrArg _ haccrued.collateral⟩
      rw [haccrued.available] at hv
      show _ ≤ v.toNat
      omega
  | deposit _ hin h =>
      obtain ⟨mint', hkey⟩ := hin.key
      exact (hlive hin.market hkey (Ledger.deposit_switches h).1).elim
  | withdraw _ hin h =>
      obtain ⟨mint', hkey⟩ := hin.key
      exact (hlive hin.market hkey (Ledger.withdraw_switches h).1).elim
  | borrow hown hpause _ _ =>
      obtain ⟨mint', hkey⟩ := hown.key
      exact (hlive hown.market hkey hpause).elim
  | seize hseize hk h hr' =>
      obtain ⟨M', mint', m', -, hkey, hm'⟩ := (ReserveChange.seize hseize hk h hr').market hw hr
      have hM := (hw.wellFormed _ r hr).key
      obtain ⟨q, hq, hin⟩ : ∃ q, w.reserves (.reserve M mint) = some q ∧ q.lendingMarket = _ := by
        rcases List.mem_pair.mp hk with he | he
        · exact he ▸ hseize.repayIn
        · exact he ▸ hseize.withdrawIn
      cases hq.symm.trans hr
      exact (hlive hseize.market (hin ▸ hM) hseize.unpaused).elim

/-- An obligation of a paused market: refreshed, or repaid. -/
theorem ObligationChange.stopped {user : Pubkey} {o o' : Obligation} (ha : w.Addressed)
    (h : w.ObligationChange ix (.obligation M user) o o')
    (ho : w.obligations (.obligation M user) = some o) (hm : w.markets M = some m)
    (hpaused : m.isPaused = true) : Slotwise Ledger.Revalued o.deposits o'.deposits ∧
      Slotwise ObligationLiquidity.Settling o.borrows o'.borrows := by
  have hlive {M' : Pubkey} {m' : LendingMarket} (hm' : w.market M' = .ok m') (hM : M = M')
      (hopen : m'.isPaused = false) : False := by
    rw [← hM] at hm'
    cases hm.symm.trans (market_ok hm').1
    rw [hpaused] at hopen
    cases hopen
  have hmarket {M' u k : Pubkey} {m' : LendingMarket} {r : Reserve}
      (hown : w.Own ix (.obligation M user) M' u k m' r) : M = M' :=
    (Pubkey.obligation.inj hown.obligation).1
  cases h with
  | refresh _ h =>
      obtain ⟨-, -, hrevalued⟩ := Ledger.refreshObligation_ok h
      exact ⟨hrevalued, Obligation.refresh_slotwise (fun _ _ hkey _ _ => hkey) h⟩
  | repay _ h =>
      have hframe := (Ledger.frame_repay h).2
      obtain ⟨r₁, i, o₁, -, -, -, hacc, hrep⟩ := Ledger.repay_ok h
      have hgrown : Slotwise ObligationLiquidity.Settling o.borrows o₁.borrows :=
        Obligation.accrueInterest_slotwise ObligationLiquidity.settling_refl
          (fun _ _ hkey _ _ => hkey) hacc
      refine ⟨?_, hgrown.trans (fun _ _ _ => ObligationLiquidity.Settling.trans)
        (Obligation.settling_repay hrep)⟩
      rw [hframe]
      exact slotwise_refl (fun _ => ⟨rfl, rfl⟩) _
  | deposit hown hpause _ _ => exact (hlive hown.market (hmarket hown) hpause).elim
  | withdraw hown h =>
      exact (hlive hown.market (hmarket hown) (Ledger.withdrawCollateral_unpaused h)).elim
  | borrow hown hpause _ _ => exact (hlive hown.market (hmarket hown) hpause).elim
  | seize hseize _ =>
      have haddress := Pubkey.obligation.inj (ha.obligations _ o ho)
      exact (hlive hseize.market (haddress.1.trans hseize.obligationIn) hseize.unpaused).elim

theorem exec_stopped (hw : w.Linked) (ha : w.Addressed) (hM : M.isWallet = false)
    (hm : w.markets M = some m) (hpaused : m.isPaused = true)
    (hno : ∀ owner, ix ≠ .setPause owner M false) (h : w.exec mxe ix = .ok w') :
    Stopped M w w' where
  market m₀ hm₀ hp₀ := by
    cases hm.symm.trans hm₀
    rcases exec_market h M with hsame | ⟨owner, fee, -, -, -, hnew, -⟩ | ⟨q, q', hq, hchange, hq'⟩
    · exact ⟨m, hsame.trans hm, hpaused⟩
    · cases hm.symm.trans hnew
    · cases hm.symm.trans hq
      refine ⟨q', hq', ?_⟩
      cases hchange with
      | @pause owner paused hix _ =>
          cases paused with
          | true => rfl
          | false => exact absurd hix (hno owner)
      | authority _ _ => exact hpaused
  noReserve mint hnone := by
    rcases exec_reserve h (.reserve M mint) with
      hsame | ⟨r, ⟨a, config, m', rfl, hm', hopen, -, hkey, -⟩, -⟩ | ⟨r, r', hr, -⟩
    · exact hsame.trans hnone
    · -- the owner adds no reserve either
      rw [Pubkey.reserve.injEq] at hkey
      cases hm.symm.trans (hkey.1 ▸ (ownedMarket_eq_ok.mp hm').2.1)
      rw [hpaused] at hopen
      cases hopen
    · cases hnone.symm.trans hr
  reserves mint r hr := by
    obtain ⟨r', hr', rfl | hchange⟩ := exec_reserve_at h hr
    · exact ⟨r', hr', le_refl _, rfl⟩
    · exact ⟨r', hr', hchange.stopped hw hr hm hpaused⟩
  obligations user o ho := by
    obtain ⟨o', ho', rfl | hchange⟩ := exec_obligation_at h ho
    · exact ⟨o', ho', slotwise_refl (fun _ => ⟨rfl, rfl⟩) _,
        slotwise_refl ObligationLiquidity.settling_refl _⟩
    · exact ⟨o', ho', hchange.stopped ha ho hm hpaused⟩
  tokens := (exec_calls h).spared (unsigned_of_paused hm hpaused hM h)

/-- Whatever is run before somebody clears the switch of a paused market, its reserves keep their
liquidity and their cTokens, its users keep their collateral and take up no loan, and no token
leaves its vaults. -/
theorem paused_run (mxe : Mxe) (clock : Clock) (ixs later : List Instruction) (w : World)
    (owner : Pubkey) (m : LendingMarket) (hrun : ixs.foldl (tx mxe) (genesis clock) = w)
    (hm : w.markets (.lendingMarket owner) = some m) (hpaused : m.isPaused = true)
    (hno : ∀ ix ∈ later, ∀ o, ix ≠ .setPause o (.lendingMarket owner) false) :
    Stopped (.lendingMarket owner) w (later.foldl (tx mxe) w) := by
  have hw : w.Linked := hrun ▸ linked_run mxe clock ixs
  have ha : w.Addressed := hrun ▸ addressed_run mxe clock ixs
  let Inv : World → Prop := fun v => v.Linked ∧ v.Addressed ∧ Stopped (.lendingMarket owner) w v
  have hstart : Inv w := ⟨hw, ha, .refl _ w⟩
  have hlater : Inv (later.foldl (tx mxe) w) := by
    apply run_invariant later hstart
    intro ix hix v v' hv h
    obtain ⟨m', hm', hpaused'⟩ := hv.2.2.market m hm hpaused
    exact ⟨hv.1.exec hv.2.1 h, hv.2.1.exec h,
      hv.2.2.trans (exec_stopped hv.1 hv.2.1 rfl hm' hpaused' (hno ix hix) h)⟩
  exact hlater.2.2

/-- The pool is paused while its first user has a loan; the user repays some of it, and would like
to have the dollars back. -/
def pausing : List Instruction :=
  openPool ++ join 1 ++ [.borrow (debtOf 1) 1000, .setPause (.key 1) poolMarket true]

def afterPause : List Instruction := [.repay (debtOf 1) 10, .withdraw (liquidityOf 1) 100]

theorem paused_run_pool : Stopped poolMarket (pausing.foldl (tx plainMxe) (genesis ⟨0, 0⟩))
    (afterPause.foldl (tx plainMxe) (pausing.foldl (tx plainMxe) (genesis ⟨0, 0⟩))) := by
  have hsome : ((pausing.foldl (tx plainMxe) (genesis ⟨0, 0⟩)).markets poolMarket).any
      (·.isPaused) = true := by decide +kernel
  obtain ⟨m, hm, hpaused⟩ := (Option.any_eq_true _ _).mp hsome
  refine paused_run plainMxe ⟨0, 0⟩ pausing afterPause _ (.key 1) m rfl hm hpaused ?_
  intro ix hix o
  simp only [afterPause, List.mem_cons, List.not_mem_nil, or_false] at hix
  rcases hix with rfl | rfl <;> exact nofun

/-! ## An inactive reserve -/

/-- What an inactive reserve keeps: its terms, its liquidity, its cTokens, and every debt in it. -/
structure Idle (k : Pubkey) (w w' : World) : Prop where
  reserve : ∀ r, w.reserves k = some r → ∃ r', w'.reserves k = some r' ∧
    r'.config = r.config ∧ r'.liquidity.availableAmount = r.liquidity.availableAmount ∧
    r'.collateral.mintTotalSupply = r.collateral.mintTotalSupply
  obligations : ∀ x o, w.obligations x = some o → ∃ o', w'.obligations x = some o' ∧
    Slotwise (ObligationLiquidity.Stands k) o.borrows o'.borrows
  newcomers : ∀ x o', w.obligations x = none → w'.obligations x = some o' →
    ∀ i : Fin maxBorrowCountInReserve, o'.borrows[i].borrowReserve ≠ k
  vault : w.tokens.balance (.liquidityVault k) ≤ w'.tokens.balance (.liquidityVault k)

theorem Idle.refl (k : Pubkey) (w : World) : Idle k w w where
  reserve r hr := ⟨r, hr, rfl, rfl, rfl⟩
  obligations x o ho := ⟨o, ho, slotwise_refl (ObligationLiquidity.stands_refl k) _⟩
  newcomers x o' hnone ho' := by cases hnone.symm.trans ho'
  vault := le_refl _

theorem Idle.trans (h : Idle k w w') (h' : Idle k w' v) : Idle k w v where
  reserve r hr := by
    obtain ⟨r', hr', hconfig, havail, hsupply⟩ := h.reserve r hr
    obtain ⟨r'', hr'', hconfig', havail', hsupply'⟩ := h'.reserve r' hr'
    exact ⟨r'', hr'', hconfig'.trans hconfig, havail'.trans havail, hsupply'.trans hsupply⟩
  obligations x o ho := by
    obtain ⟨o', ho', hstands⟩ := h.obligations x o ho
    obtain ⟨o'', ho'', hstands'⟩ := h'.obligations x o' ho'
    exact ⟨o'', ho'', hstands.trans (fun _ _ _ => ObligationLiquidity.Stands.trans) hstands'⟩
  newcomers x o'' hnone ho'' := by
    cases hmid : w'.obligations x with
    | none => exact h'.newcomers x o'' hmid ho''
    | some o' =>
        obtain ⟨p, hp, hstands⟩ := h'.obligations x o' hmid
        cases hp.symm.trans ho''
        exact fun i he => h.newcomers x o' hnone hmid i ((hstands i).key.mp he)
  vault := h.vault.trans h'.vault

/-- The books of an inactive reserve: interest and prices. -/
theorem ReserveChange.idle {r r' : Reserve} (h : w.ReserveChange ix k r r')
    (hr : w.reserves k = some r) (hinactive : r.config.isActive = false)
    (hno : ∀ owner M mint c, ix ≠ .updateReserveConfig owner M mint k c) :
    r'.config = r.config ∧ r'.liquidity.availableAmount = r.liquidity.availableAmount ∧
      r'.collateral.mintTotalSupply = r.collateral.mintTotalSupply := by
  have hlive (hactive : r.config.isActive = true) : False := by
    rw [hinactive] at hactive
    cases hactive
  cases h with
  | config hix _ _ _ => exact absurd hix (hno _ _ _ _)
  | refresh _ _ h =>
      obtain ⟨r₁, p, t, hacc, rfl⟩ := Ledger.refreshReserve_ok h
      have haccrued := Reserve.accrues_of_ok hacc
      exact ⟨haccrued.config, haccrued.available, congrArg _ haccrued.collateral⟩
  | deposit _ _ h => exact (hlive (Ledger.deposit_switches h).2).elim
  | withdraw _ _ h => exact (hlive (Ledger.withdraw_switches h).2).elim
  | borrow _ _ hactive _ => exact (hlive hactive).elim
  | repay _ h => exact (hlive (Ledger.repay_active h)).elim
  | seize _ hk h _ =>
      obtain ⟨hrepay, hwithdraw⟩ := Ledger.seize_active h
      rcases List.mem_pair.mp hk with rfl | rfl
      · exact (hlive (hrepay r hr)).elim
      · exact (hlive (hwithdraw r hr)).elim

/-- No payment is made through the reserve at `k`: it refuses loans, repayments and liquidations. -/
structure Refuses (w : World) (k : Pubkey) : Prop where
  borrow : ∀ r r' o o' a, w.reserves k = some r → r.config.isActive = true →
    ¬ Ledger.Borrows w.clock k r o a r' o'
  repay : ∀ r r' o o' a, w.reserves k = some r → Ledger.repay w.clock k r o a ≠ .ok (r', o')
  seize : ∀ gate withdrawKey o a s,
    Ledger.seize gate w.clock k withdrawKey w.reserves o a ≠ .ok s

/-- Debts in a reserve that refuses payments stand, whatever is done to the obligation. -/
theorem ObligationChange.stands {o o' : Obligation} (h : w.ObligationChange ix x o o')
    (hk : k ≠ default) (hrefuses : w.Refuses k) :
    Slotwise (ObligationLiquidity.Stands k) o.borrows o'.borrows := by
  have hrefl := ObligationLiquidity.stands_refl k
  cases h with
  | refresh _ h =>
      exact Obligation.refresh_slotwise (fun _ _ => ObligationLiquidity.stands_of_key) h
  | deposit hown _ _ h =>
      rw [Obligation.borrows_deposit hown.ne_default h]
      exact slotwise_refl hrefl _
  | withdraw _ h =>
      obtain ⟨i, mv, -, -, hwd, -⟩ := Ledger.withdrawCollateral_ok h
      rw [Obligation.borrows_withdraw hwd]
      exact slotwise_refl hrefl _
  | @borrow M user key m q q' a o' hown _ hactive h =>
      have hne : key ≠ k := by
        rintro rfl
        exact hrefuses.borrow _ _ _ _ _ hown.reserve hactive h
      obtain ⟨r₁, o₁, -, -, hacc, hbor⟩ := h.steps
      have haccrued : Slotwise (ObligationLiquidity.Stands k) o.borrows o₁.borrows :=
        Obligation.accrueExisting_slotwise hrefl (fun _ _ => ObligationLiquidity.stands_of_key) hacc
      exact haccrued.trans (fun _ _ _ => ObligationLiquidity.Stands.trans)
        (Obligation.stands_borrow hown.ne_default hne hk hbor)
  | @repay M user key m q q' a o' hown h =>
      have hne : key ≠ k := by
        rintro rfl
        exact hrefuses.repay _ _ _ _ _ hown.reserve h
      obtain ⟨r₁, i, o₁, -, -, -, hacc, hrep⟩ := Ledger.repay_ok h
      have haccrued : Slotwise (ObligationLiquidity.Stands k) o.borrows o₁.borrows :=
        Obligation.accrueInterest_slotwise hrefl (fun _ _ => ObligationLiquidity.stands_of_key) hacc
      exact haccrued.trans (fun _ _ _ => ObligationLiquidity.Stands.trans)
        (Obligation.stands_repay hne hk hrep)
  | seize _ h =>
      refine Ledger.seize_stands h ?_ hk
      rintro rfl
      exact hrefuses.seize _ _ _ _ _ h

theorem refuses_of_inactive {r : Reserve} (hr : w.reserves k = some r)
    (hinactive : r.config.isActive = false) : w.Refuses k := by
  have hlive {q : Reserve} (hq : w.reserves k = some q) (hactive : q.config.isActive = true) :
      False := by
    cases hr.symm.trans hq
    rw [hinactive] at hactive
    cases hactive
  exact {
    borrow := fun _ _ _ _ _ hq hactive _ => hlive hq hactive
    repay := fun _ _ _ _ _ hq h => hlive hq (Ledger.repay_active h)
    seize := fun _ _ _ _ _ h => hlive hr ((Ledger.seize_active h).1 r hr) }

/-- One instruction, when what it does to the reserve is known. -/
theorem exec_idle {r r' : Reserve} (hb : w.books.Backed) (hr : w.reserves k = some r)
    (hr' : w'.reserves k = some r') (hconfig : r'.config = r.config)
    (havail : r'.liquidity.availableAmount = r.liquidity.availableAmount)
    (hsupply : r'.collateral.mintTotalSupply = r.collateral.mintTotalSupply)
    (hrefuses : w.Refuses k) (h : w.exec mxe ix = .ok w') : Idle k w w' := by
  have hk : k ≠ default := Pubkey.ne_default (hb.keys k r hr)
  refine ⟨fun q hq => ?_, fun x o ho => ?_, fun x o' hnone ho' => ?_, ?_⟩
  · cases hr.symm.trans hq
    exact ⟨r', hr', hconfig, havail, hsupply⟩
  · obtain ⟨o', ho', rfl | hchange⟩ := exec_obligation_at h ho
    · exact ⟨o', ho', slotwise_refl (ObligationLiquidity.stands_refl k) _⟩
    · exact ⟨o', ho', hchange.stands hk hrefuses⟩
  · -- a new obligation is an empty one
    rcases exec_obligation h with hsame | ⟨y, owner, M', m', -, -, -, -, -, hstore⟩ |
      ⟨y, p, p', hp, -, hstore⟩
    · cases hnone.symm.trans (hsame ▸ ho')
    · by_cases hxy : x = y
      · rw [hstore, hxy, store_self] at ho'
        cases ho'
        intro i he
        have hfree := Obligation.names_init (P := (· ≠ k)) owner M'
        exact hfree.borrows i (fun hzero => hk (he.symm.trans hzero)) he
      · rw [hstore, store_of_ne _ _ hxy] at ho'
        cases hnone.symm.trans ho'
    · have hne : x ≠ y := by
        rintro rfl
        cases hnone.symm.trans hp
      rw [hstore, store_of_ne _ _ hne] at ho'
      cases hnone.symm.trans ho'
  · -- what the vault holds moves with the available amount
    have hgap := (exec_step h).available_gap hb k
    have hold : w.books.available k = r.liquidity.availableAmount.toNat := amountIn_of hr
    have hnew : w'.books.available k = r'.liquidity.availableAmount.toNat := amountIn_of hr'
    rw [hold, hnew, havail] at hgap
    exact Nat.le_of_add_le_add_left hgap

/-- While a reserve is inactive nothing is paid into it or out of it: until somebody updates its
configuration its books move by interest alone, and every debt in it stays where it is, not a unit
smaller, since it can be neither repaid nor liquidated. -/
theorem inactive_run (mxe : Mxe) (clock : Clock) (ixs later : List Instruction) (w : World)
    (k : Pubkey) (r : Reserve) (hrun : ixs.foldl (tx mxe) (genesis clock) = w)
    (hr : w.reserves k = some r) (hinactive : r.config.isActive = false)
    (hno : ∀ ix ∈ later, ∀ owner M mint c, ix ≠ .updateReserveConfig owner M mint k c) :
    Idle k w (later.foldl (tx mxe) w) := by
  have hb : w.books.Backed := hrun ▸ backed_run mxe clock ixs
  apply backed_invariant later hb (Idle.refl k w)
  intro ix hix v v' hv hidle h
  obtain ⟨q, hq, hconfig, -⟩ := hidle.reserve r hr
  have hoff : q.config.isActive = false := hconfig ▸ hinactive
  have hrefuses := refuses_of_inactive hq hoff
  obtain ⟨q', hq', rfl | hchange⟩ := exec_reserve_at h hq
  · exact hidle.trans (exec_idle hv hq hq' rfl rfl rfl hrefuses h)
  · obtain ⟨hconfig', havail, hsupply⟩ := hchange.idle hq hoff (hno ix hix)
    exact hidle.trans (exec_idle hv hq hq' hconfig' havail hsupply hrefuses h)

/-- The pool's reserve is switched off while its first user has a loan. -/
def closing : List Instruction :=
  openPool ++ join 1 ++ [.borrow (debtOf 1) 1000,
    .updateReserveConfig (.key 1) poolMarket usd usdReserve { flatRate with status := 1 }]

def afterClosing : List Instruction :=
  [.repay (debtOf 1) 10, .advanceClock ⟨100, 40⟩, refreshPool 40]

theorem inactive_run_pool : Idle usdReserve (closing.foldl (tx plainMxe) (genesis ⟨0, 0⟩))
    (afterClosing.foldl (tx plainMxe) (closing.foldl (tx plainMxe) (genesis ⟨0, 0⟩))) := by
  have hsome : ((closing.foldl (tx plainMxe) (genesis ⟨0, 0⟩)).reserves usdReserve).any
      (fun r => !r.config.isActive) = true := by decide +kernel
  obtain ⟨r, hr, hinactive⟩ := (Option.any_eq_true _ _).mp hsome
  refine inactive_run plainMxe ⟨0, 0⟩ closing afterClosing _ usdReserve r rfl hr
    (Bool.not_eq_true' _ ▸ hinactive) ?_
  intro ix hix owner M mint c
  simp only [afterClosing, List.mem_cons, List.not_mem_nil, or_false] at hix
  rcases hix with rfl | rfl | rfl <;> exact nofun

end World

end VeilVault
