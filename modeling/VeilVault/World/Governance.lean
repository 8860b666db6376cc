/-
# VeilVault.World.Governance — what the owner of a market can do, and what handing it over does.

Only the owner's signature changes a market, creates a reserve in it or changes a reserve's
configuration (`owner_governs_alone`).  The owner can also name another one, with
`update_market_authority`.  The market's address stays the one derived from the first owner, while
nearly every instruction derives it from the stored one: after a hand-over to somebody else the two
never agree again.  The market is then an orphan.  Of the instructions that name it, only
`refresh_obligation` can still succeed, so its liquidity and its users' collateral stay where they
are for good (`handover_freezes`).
-/
import VeilVault.Ledger.Standing
import VeilVault.World.Isolation

namespace VeilVault

open Kit

/-! ## Refreshing changes no position -/

namespace Obligation

variable {o o' o'' : Obligation}

/-- The same slots, the same collateral, and no less debt. -/
structure OnlyRevalued (o o' : Obligation) : Prop where
  holder : o.SameHolder o'
  deposits : ∀ i : Fin maxDepositsCountInReserve, Ledger.Revalued o.deposits[i] o'.deposits[i]
  borrows : ∀ i : Fin maxBorrowCountInReserve,
    o'.borrows[i].borrowReserve = o.borrows[i].borrowReserve ∧
      o.borrows[i].borrowedAmountSf.toNat ≤ o'.borrows[i].borrowedAmountSf.toNat

theorem OnlyRevalued.refl (o : Obligation) : o.OnlyRevalued o :=
  ⟨.refl o, fun _ => ⟨rfl, rfl⟩, fun _ => ⟨rfl, le_refl _⟩⟩

theorem OnlyRevalued.trans (h : o.OnlyRevalued o') (h' : o'.OnlyRevalued o'') :
    o.OnlyRevalued o'' where
  holder := h.holder.trans h'.holder
  deposits i := ⟨(h'.deposits i).1.trans (h.deposits i).1, (h'.deposits i).2.trans (h.deposits i).2⟩
  borrows i := ⟨(h'.borrows i).1.trans (h.borrows i).1, (h.borrows i).2.trans (h'.borrows i).2⟩

theorem OnlyRevalued.deposited (h : o.OnlyRevalued o') (k : Pubkey) :
    o'.deposited k = o.deposited k := deposited_congr_slots h.deposits k

theorem onlyRevalued_of_refresh {reserves : Pubkey → Option Reserve} {accounts : List Pubkey}
    {clock : Clock} (h : Ledger.refreshObligation reserves accounts clock o = .ok o') :
    o.OnlyRevalued o' := by
  obtain ⟨hholder, hgrown, hrevalued⟩ := Ledger.refreshObligation_ok h
  exact ⟨hholder, hrevalued, fun i =>
    ⟨(hgrown i).1, ObligationLiquidity.debt_le_of_grown (hgrown i)⟩⟩

end Obligation

namespace World

variable {mxe : Mxe} {w w' v : World} {ix : Instruction} {M k x : Pubkey}

/-! ## The owner alone -/

/-- The market is as it was, with the same reserves, each under the same configuration. -/
structure Ungoverned (M : Pubkey) (w w' : World) : Prop where
  market : w'.markets M = w.markets M
  noReserve : ∀ mint, w.reserves (.reserve M mint) = none → w'.reserves (.reserve M mint) = none
  configs : ∀ mint r, w.reserves (.reserve M mint) = some r →
    ∃ r', w'.reserves (.reserve M mint) = some r' ∧ r'.config = r.config

theorem Ungoverned.refl (M : Pubkey) (w : World) : Ungoverned M w w :=
  ⟨rfl, fun _ h => h, fun _ r hr => ⟨r, hr, rfl⟩⟩

theorem Ungoverned.trans (h : Ungoverned M w w') (h' : Ungoverned M w' v) : Ungoverned M w v where
  market := h'.market.trans h.market
  noReserve mint hnone := h'.noReserve mint (h.noReserve mint hnone)
  configs mint r hr := by
    obtain ⟨r', hr', hsame⟩ := h.configs mint r hr
    obtain ⟨r'', hr'', hsame'⟩ := h'.configs mint r' hr'
    exact ⟨r'', hr'', hsame'.trans hsame⟩

/-- The check on the owner passes for the stored owner only. -/
theorem owner_of_owned {m m' : LendingMarket} {owner : Pubkey} (hm : w.markets M = some m)
    (h : w.ownedMarket owner M = .ok m') : owner = m.owner := by
  obtain ⟨-, hm', -, howner⟩ := ownedMarket_eq_ok.mp h
  cases hm.symm.trans hm'
  exact howner.symm

theorem exec_ungoverned {m : LendingMarket} (hm : w.markets M = some m)
    (hno : ix.signer ≠ some m.owner) (h : w.exec mxe ix = .ok w') : Ungoverned M w w' := by
  have hown {owner : Pubkey} {m' : LendingMarket} (hsign : ix.signer = some owner)
      (hm' : w.ownedMarket owner M = .ok m') : False :=
    hno (hsign.trans (congrArg some (owner_of_owned hm hm')))
  have hcreate {mint : Pubkey} {r : Reserve} (hnew : w.Creates ix (.reserve M mint) r) : False := by
    obtain ⟨a, config, m', rfl, hm', -, -, hkey, -⟩ := hnew
    rw [Pubkey.reserve.injEq] at hkey
    exact hown rfl (hkey.1 ▸ hm')
  refine ⟨?_, fun mint hnone => ?_, fun mint r hr => ?_⟩
  · rcases exec_market h M with hsame | ⟨owner, fee, rfl, -, -, hnew, -⟩ | ⟨q, q', -, hchange, -⟩
    · exact hsame
    · cases hm.symm.trans hnew
    · cases hchange with
      | pause hix hm' | authority hix hm' => exact (hown (by rw [hix]; rfl) hm').elim
  · rcases exec_reserve h (.reserve M mint) with hsame | ⟨r, hnew, -⟩ | ⟨r, r', hr, -⟩
    · exact hsame.trans hnone
    · exact (hcreate hnew).elim
    · cases hnone.symm.trans hr
  · obtain ⟨r', hr', rfl | hchange⟩ := exec_reserve_at h hr
    · exact ⟨r', hr', rfl⟩
    · refine ⟨r', hr', ?_⟩
      rcases hchange.steps hr with ⟨owner, M', mint', config, m', rfl, hm', hkey, -⟩ |
        ⟨r₁, hacc, hmove⟩
      · rw [Pubkey.reserve.injEq] at hkey
        exact (hown rfl (hkey.1 ▸ hm')).elim
      · exact hmove.sameInterest.config.trans (Reserve.accrues_of_ok hacc).config

/-- Whatever is run without the signature of a market's owner, the market stays as it is, no reserve
is added to it, and the terms of those it has do not change. -/
theorem owner_governs_alone (mxe : Mxe) (w : World) (later : List Instruction) (M : Pubkey)
    (m : LendingMarket) (hm : w.markets M = some m)
    (hno : ∀ ix ∈ later, ix.signer ≠ some m.owner) : Ungoverned M w (later.foldl (tx mxe) w) := by
  apply run_invariant later (.refl M w)
  intro ix hix v v' hv h
  exact hv.trans (exec_ungoverned (hv.market.trans hm) (hno ix hix) h)

/-- The pool's second user opens an account, and tries to borrow and to pause the pool. -/
def intruder : List Instruction :=
  [.openTokenAccount (.key 102) usd (.key 2), .borrow (debtOf 2) 1,
    .setPause (.key 2) poolMarket true, refreshPool 1]

theorem owner_governs_alone_intruder :
    Ungoverned poolMarket (openPool.foldl (tx plainMxe) (genesis ⟨0, 0⟩))
      (intruder.foldl (tx plainMxe) (openPool.foldl (tx plainMxe) (genesis ⟨0, 0⟩))) := by
  have hsome : ((openPool.foldl (tx plainMxe) (genesis ⟨0, 0⟩)).markets poolMarket).any
      (fun m => m.owner = .key 1) = true := by decide +kernel
  obtain ⟨m, hm, howner⟩ := (Option.any_eq_true _ _).mp hsome
  have howner : m.owner = .key 1 := of_decide_eq_true howner
  have hsigners : ∀ ix ∈ intruder, ix.signer ≠ some (.key 1) := by decide
  exact owner_governs_alone plainMxe _ intruder poolMarket m hm (howner ▸ hsigners)

/-! ## Orphans -/

/-- The market is not at the address of its owner. -/
def Orphaned (w : World) (M : Pubkey) : Prop :=
  ∃ m, w.markets M = some m ∧ M ≠ .lendingMarket m.owner

/-- Of the instructions that name an orphan, only a refresh of an obligation succeeds. -/
theorem Orphaned.refresh_only (hw : w.Orphaned M) (h : w.exec mxe ix = .ok w')
    (hM : ix.lendingMarket = some M) : ∃ x accounts, ix = .refreshObligation M x accounts := by
  obtain ⟨m, hm, horphan⟩ := hw
  rcases exec_checks_market h hM with ⟨owner, fee, rfl⟩ | hrefresh | ⟨m', hm'⟩
  · simp only [exec, World.initializeMarket, bind_eq_ok, vacant_eq_ok, exists_const] at h
    obtain ⟨-, -, hnew, -⟩ := h
    cases hm.symm.trans hnew
  · exact hrefresh
  · obtain ⟨hsome, hkey⟩ := market_ok hm'
    cases hm.symm.trans hsome
    exact absurd hkey horphan

/-- Nothing of the market moves; its obligations are revalued at most, and only payments into its
vaults and burnt cTokens show. -/
structure Frozen (M : Pubkey) (w w' : World) : Prop where
  market : w'.markets M = w.markets M
  reserves : ∀ mint, w'.reserves (.reserve M mint) = w.reserves (.reserve M mint)
  noObligation : ∀ user, w.obligations (.obligation M user) = none →
    w'.obligations (.obligation M user) = none
  obligations : ∀ user o, w.obligations (.obligation M user) = some o →
    ∃ o', w'.obligations (.obligation M user) = some o' ∧ o.OnlyRevalued o'
  tokens : w.tokens.Spared M w'.tokens

theorem Frozen.refl (M : Pubkey) (w : World) : Frozen M w w :=
  ⟨rfl, fun _ => rfl, fun _ h => h, fun _ o ho => ⟨o, ho, .refl o⟩, TokenLedger.spared_refl _ _⟩

theorem Frozen.trans (h : Frozen M w w') (h' : Frozen M w' v) : Frozen M w v where
  market := h'.market.trans h.market
  reserves mint := (h'.reserves mint).trans (h.reserves mint)
  noObligation user hnone := h'.noObligation user (h.noObligation user hnone)
  obligations user o ho := by
    obtain ⟨o', ho', hrevalued⟩ := h.obligations user o ho
    obtain ⟨o'', ho'', hrevalued'⟩ := h'.obligations user o' ho'
    exact ⟨o'', ho'', hrevalued.trans hrevalued'⟩
  tokens := h.tokens.trans h'.tokens

theorem frozen_of_refresh {key : Pubkey} {accounts : List Pubkey}
    (h : w.refreshObligation M key accounts = .ok w') : Frozen M w w' := by
  simp only [refreshObligation, bind_eq_ok, load_eq_ok, pure_eq_ok] at h
  obtain ⟨-, -, o, ho, o', hrefresh, rfl⟩ := h
  obtain ⟨ho', -⟩ := obligationIn_ok ho
  refine ⟨rfl, fun _ => rfl, fun user hnone => ?_, fun user p hp => ?_,
    TokenLedger.spared_refl _ _⟩
  · have hne : Pubkey.obligation M user ≠ key := by
      rintro rfl
      cases ho'.symm.trans hnone
    exact (store_of_ne _ _ hne).trans hnone
  · by_cases hkey : Pubkey.obligation M user = key
    · subst hkey
      cases ho'.symm.trans hp
      exact ⟨o', store_self _ _ _, Obligation.onlyRevalued_of_refresh hrefresh⟩
    · exact ⟨p, (store_of_ne _ _ hkey).trans hp, .refl p⟩

/-- One instruction after the market has lost its address. -/
theorem Orphaned.frozen (horphan : w.Orphaned M) (hw : w.Linked) (ha : w.Addressed)
    (hM : M.isWallet = false) (h : w.exec mxe ix = .ok w') : Frozen M w w' := by
  by_cases hnames : ix.lendingMarket = some M
  · obtain ⟨key, accounts, rfl⟩ := horphan.refresh_only h hnames
    exact frozen_of_refresh h
  · have hobligation := exec_obligation_of_ne ha hnames h
    exact ⟨exec_market_of_ne hnames h, exec_reserve_of_ne hw hnames h,
      fun user hnone => (hobligation user).trans hnone,
      fun user o ho => ⟨o, (hobligation user).trans ho, .refl o⟩,
      (exec_calls h).spared (not_signed hM hnames h)⟩

theorem Orphaned.of_frozen (horphan : w.Orphaned M) (h : Frozen M w w') : w'.Orphaned M := by
  obtain ⟨m, hm, hne⟩ := horphan
  exact ⟨m, h.market.trans hm, hne⟩

theorem orphaned_of_handover {owner newAuthority : Pubkey} (hnew : newAuthority ≠ owner)
    (h : w.updateMarketAuthority owner M newAuthority = .ok w') :
    w'.Orphaned M ∧ M.isWallet = false := by
  simp only [updateMarketAuthority, bind_eq_ok, pure_eq_ok] at h
  obtain ⟨m, hm, rfl⟩ := h
  obtain ⟨-, -, rfl, -⟩ := ownedMarket_eq_ok.mp hm
  refine ⟨⟨_, store_self _ _ _, fun hkey => ?_⟩, rfl⟩
  rw [Pubkey.lendingMarket.injEq] at hkey
  exact hnew hkey.symm

/-- After a market is handed over to somebody else, nothing of it ever moves again: in every later
run the market, its reserves, its users' collateral and their debts stay (debts grow at most), no
token leaves a vault of the market, and no cToken is issued.  Every instruction that names the
market fails, from then on, except a refresh of an obligation. -/
theorem handover_freezes (mxe : Mxe) (clock : Clock) (ixs later : List Instruction) (w w' : World)
    (owner M newAuthority : Pubkey) (hrun : ixs.foldl (tx mxe) (genesis clock) = w)
    (hnew : newAuthority ≠ owner)
    (h : w.updateMarketAuthority owner M newAuthority = .ok w') :
    Frozen M w' (later.foldl (tx mxe) w') ∧
      ∀ ix, ix.lendingMarket = some M → (∀ x accounts, ix ≠ .refreshObligation M x accounts) →
        ∃ e, (later.foldl (tx mxe) w').exec mxe ix = .error e := by
  have hexec : w.exec mxe (.updateMarketAuthority owner M newAuthority) = .ok w' := h
  have hw : w.Linked := hrun ▸ linked_run mxe clock ixs
  have ha : w.Addressed := hrun ▸ addressed_run mxe clock ixs
  obtain ⟨horphan, hM⟩ := orphaned_of_handover hnew h
  let Inv : World → Prop := fun v => v.Linked ∧ v.Addressed ∧ v.Orphaned M ∧ Frozen M w' v
  have hstart : Inv w' := ⟨hw.exec ha hexec, ha.exec hexec, horphan, .refl M w'⟩
  have hrest : Inv (later.foldl (tx mxe) w') := by
    apply run_invariant later hstart
    intro ix _ v v' hv hv'
    have hstep := hv.2.2.1.frozen hv.1 hv.2.1 hM hv'
    exact ⟨hv.1.exec hv.2.1 hv', hv.2.1.exec hv', hv.2.2.1.of_frozen hstep,
      hv.2.2.2.trans hstep⟩
  refine ⟨hrest.2.2.2, fun ix hnames hother => ?_⟩
  cases hout : (later.foldl (tx mxe) w').exec mxe ix with
  | error e => exact ⟨e, rfl⟩
  | ok v =>
      obtain ⟨x, accounts, hix⟩ := hrest.2.2.1.refresh_only hout hnames
      exact absurd hix (hother x accounts)

/-- The pool is handed to the second user while the first has dollars in it. -/
theorem handover_freezes_pool : ∃ w',
    ((openPool ++ join 1).foldl (tx plainMxe) (genesis ⟨0, 0⟩)).updateMarketAuthority (.key 1)
        poolMarket (.key 2) = .ok w' ∧
      Frozen poolMarket w' ([.withdraw (liquidityOf 1) 100,
        .setPause (.key 2) poolMarket true].foldl (tx plainMxe) w') := by
  have hok : (((openPool ++ join 1).foldl (tx plainMxe) (genesis ⟨0, 0⟩)).updateMarketAuthority
      (.key 1) poolMarket (.key 2)).isOk = true := by decide +kernel
  obtain ⟨w', hw'⟩ := exists_ok_of_isOk hok
  exact ⟨w', hw', (handover_freezes plainMxe ⟨0, 0⟩ (openPool ++ join 1)
    [.withdraw (liquidityOf 1) 100, .setPause (.key 2) poolMarket true] _ w' (.key 1) poolMarket
    (.key 2) rfl (by decide) hw').1⟩

end World

end VeilVault
