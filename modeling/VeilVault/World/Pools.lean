/-
# VeilVault.World.Pools — the program keeps share pools.

Seen from a saver, a reserve is a pool of assets and shares.  Interest adds to the assets; a deposit
pays in at the pool's rate, a withdrawal cashes in at it, to the unit as long as the payout fits a
word; loans, repayments and liquidations move assets between the vault and the borrowers and leave
the pool as it is.  That is all any instruction does to any reserve (`pools_simulated`).  Deposits
and withdrawals also move exactly what the pool says, between accounts of the user and of the
market.
-/
import VeilVault.Reserve.Rounding
import VeilVault.World.Savings

namespace VeilVault

open Kit Kit.Outcome

namespace Reserve

variable {r r' : Reserve} {a c s : U64}

/-! ## One reserve -/

/-- The pool with the interest up to a slot, less the protocol's share of it. -/
def poolAt (r : Reserve) (s : U64) : SharePool := ⟨r.assetsAt s, r.pool.shares⟩

/-- The pool is as it was, or has been given its interest. -/
def Idle (s : U64) (r r' : Reserve) : Prop := r'.pool = r.pool ∨ r'.pool = r.poolAt s

theorem pool_borrow (h : r.borrow a = .ok r') : r'.pool = r.pool := by
  obtain ⟨-, l', hl, rfl⟩ := borrow_ok.mp h
  obtain ⟨v, d, hv, hd, rfl⟩ := ReserveLiquidity.borrow_ok.mp hl
  simp only [pool, held, fees, SharePool.mk.injEq, and_true]
  omega

theorem pool_repay (h : r.repay a = .ok r') : r'.pool = r.pool := by
  obtain ⟨l', hl, rfl⟩ := repay_ok.mp h
  obtain ⟨v, d, hv, hd, rfl⟩ := ReserveLiquidity.repay_ok.mp hl
  simp only [pool, held, fees, SharePool.mk.injEq, and_true]
  omega

theorem Sound.idle {r₁ : Reserve} (h : r.Sound) (hacc : r.accrueInterest s = .ok r₁)
    (hpool : r'.pool = r₁.pool) : Idle s r r' :=
  .inr (hpool.trans (h.pool_accrueInterest hacc))

theorem Sound.pool_invest (h : r.Sound) (hd : r.depositLiquidity a = .ok (r', c)) :
    r'.pool = r.pool.invest a.toNat ∧ c.toNat = (r.pool.invest a.toNat).shares - r.pool.shares := by
  obtain ⟨hassets, hshares, -⟩ := pool_depositLiquidity hd
  have hpool : r'.pool = r.pool.invest a.toNat := by
    unfold SharePool.invest
    split
    case isTrue hzero =>
      rw [← hassets, ← h.toSolvent.minted_first hzero hd, ← hshares]
    case isFalse hpos => exact h.toSolvent.pool_payIn (Nat.pos_of_ne_zero hpos) hd
  refine ⟨hpool, ?_⟩
  rw [← hpool]
  omega

theorem Sound.pool_divest (h : r.Sound) (hd : r.redeemCollateral c = .ok (r', a)) :
    r'.pool = r.pool.divest (2 ^ 64) c.toNat ∧ a.toNat = r.pool.assetsFor c.toNat % 2 ^ 64 := by
  obtain ⟨-, hpool, -⟩ := h.toSolvent.redeemCollateral hd
  have hpaid := h.toSolvent.paid hd
  exact ⟨by rw [hpool, SharePool.divest, hpaid], hpaid⟩

end Reserve

/-- A deposit into the reserve at `k`, or a withdrawal from it. -/
def Instruction.Saves (ix : Instruction) (k : Pubkey) : Prop :=
  ∃ a amount, a.reserve = k ∧ (ix = .deposit a amount ∨ ix = .withdraw a amount)

namespace World

variable {mxe : Mxe} {w w' : World} {ix : Instruction} {k : Pubkey} {r r' : Reserve}

/-! ## Every instruction -/

/-- What an instruction does to the pool of the reserve `r` at `k`, and what it moves. -/
inductive PoolCall (w w' : World) (k : Pubkey) (r : Reserve) : Instruction → SharePool → Prop
  | idle {ix : Instruction} (hix : ¬ ix.Saves k) : PoolCall w w' k r ix r.pool
  | accrue {ix : Instruction} (hix : ¬ ix.Saves k) :
      PoolCall w w' k r ix (r.poolAt w.clock.slot)
  | invest {a : LiquidityAccounts} {amount : U64} {p : SharePool} (hk : a.reserve = k)
      (hp : p = r.poolAt w.clock.slot)
      (hmoved : ∀ x, w'.tokens.balance x + (if x = a.userTokenAccount then amount.toNat else 0) =
        w.tokens.balance x + (if x = a.liquidityVault then amount.toNat else 0) +
          (if x = a.userCollateralAccount then (p.invest amount.toNat).shares - p.shares else 0)) :
      PoolCall w w' k r (.deposit a amount) (p.invest amount.toNat)
  | divest {a : LiquidityAccounts} {amount : U64} {p : SharePool} (hk : a.reserve = k)
      (hp : p = r.poolAt w.clock.slot)
      (hmoved : ∀ x, w'.tokens.balance x +
          (if x = a.userCollateralAccount then amount.toNat else 0) +
          (if x = a.liquidityVault then p.assetsFor amount.toNat % 2 ^ 64 else 0) =
        w.tokens.balance x +
          (if x = a.userTokenAccount then p.assetsFor amount.toNat % 2 ^ 64 else 0)) :
      PoolCall w w' k r (.withdraw a amount) (p.divest (2 ^ 64) amount.toNat)

theorem idle_of_store {k₀ : Pubkey} {q q' : Reserve} (hr : w.reserves k = some r)
    (hq : w.reserves k₀ = some q) (hw' : w'.reserves = store w.reserves k₀ q')
    (hidle : q.Idle w.clock.slot q') :
    ∃ r', w'.reserves k = some r' ∧ r.Idle w.clock.slot r' := by
  by_cases hk : k = k₀
  · subst hk
    cases hq.symm.trans hr
    exact ⟨q', by rw [hw', store_self], hidle⟩
  · exact ⟨r, by rw [hw', store_of_ne _ _ hk, hr], .inl rfl⟩

theorem idle_of_same (hr : w.reserves k = some r) (hw' : w'.reserves = w.reserves) :
    ∃ r', w'.reserves k = some r' ∧ r.Idle w.clock.slot r' :=
  ⟨r, hw' ▸ hr, .inl rfl⟩

/-- A liquidation accrues its two reserves and moves a repayment within one. -/
theorem Pooled.seize_idle {gate : Obligation → Result Unit} {repayKey withdrawKey : Pubkey}
    {o : Obligation} {a : U64} {s : Ledger.Seizure} (hw : w.Pooled) (hr : w.reserves k = some r)
    (h : Ledger.seize gate w.clock repayKey withdrawKey w.reserves o a = .ok s)
    (hw' : w'.reserves = s.reserves) :
    ∃ r', w'.reserves k = some r' ∧ r.Idle w.clock.slot r' := by
  by_cases hk : k ∈ [repayKey, withdrawKey]
  · obtain ⟨r', hr'⟩  := seized_some h hk
    obtain ⟨r₁, hacc, ⟨-, rfl⟩ | ⟨-, hrep⟩⟩ := seize_reserve hr h hr' hk
    · exact ⟨_, hw' ▸ hr', (hw k r hr).idle hacc rfl⟩
    · exact ⟨r', hw' ▸ hr', (hw k r hr).idle hacc (Reserve.pool_repay hrep)⟩
  · exact ⟨r, by rw [hw', seize_reserves_of_ne h hk, hr], .inl rfl⟩

/-- Nothing but deposits and withdrawals does more to a pool than give it its interest. -/
theorem Pooled.exec_idle (hw : w.Pooled) (hr : w.reserves k = some r) (hix : ¬ ix.Saves k)
    (h : w.exec mxe ix = .ok w') : ∃ r', w'.reserves k = some r' ∧ r.Idle w.clock.slot r' := by
  cases ix with
  | addReserve a config =>
      simp only [World.exec, World.addReserve, bind_eq_ok, require_eq_ok, vacant_eq_ok, seeds_eq_ok,
        exists_const, pure_eq_ok] at h
      obtain ⟨m, -, -, hnew, -, -, -, -, -, -, -, -, -, -, -, -, -, q, -, rfl⟩ := h
      have hk : k ≠ a.reserve := by
        rintro rfl
        cases hnew.symm.trans hr
      exact ⟨r, (store_of_ne _ _ hk).trans hr, .inl rfl⟩
  | updateReserveConfig owner market mint key config =>
      simp only [World.exec, World.updateReserveConfig, bind_eq_ok, pure_eq_ok] at h
      obtain ⟨m, hm, q, hq, -, -, q', hupdate, rfl⟩ := h
      obtain ⟨hliquidity, hcollateral, -⟩ := Reserve.updateConfig_ok hupdate
      refine idle_of_store hr (reserveOf_ok hq).1 rfl (.inl ?_)
      simp only [Reserve.pool, Reserve.held, Reserve.fees, hliquidity, hcollateral]
  | refreshReserve market key priceKey priceUpdate =>
      simp only [World.exec, World.refreshReserve, bind_eq_ok, pure_eq_ok] at h
      obtain ⟨m, hm, q, hq, q', hrefresh, rfl⟩ := h
      obtain ⟨q₁, p, t, hacc, rfl⟩ := Ledger.refreshReserve_ok hrefresh
      have hq' := (reserveIn_ok hq).1
      exact idle_of_store hr hq' rfl ((hw key q hq').idle hacc rfl)
  | deposit a amount =>
      simp only [World.exec, World.deposit, bind_eq_ok, pure_eq_ok, Prod.exists] at h
      obtain ⟨m, q, -, q', c, -, t₁, -, t₂, -, rfl⟩ := h
      have hk : k ≠ a.reserve := fun he => hix ⟨a, amount, he.symm, .inl rfl⟩
      exact ⟨r, (store_of_ne _ _ hk).trans hr, .inl rfl⟩
  | withdraw a amount =>
      simp only [World.exec, World.withdraw, bind_eq_ok, pure_eq_ok, Prod.exists] at h
      obtain ⟨m, q, -, q', l, -, t₁, -, t₂, -, rfl⟩ := h
      have hk : k ≠ a.reserve := fun he => hix ⟨a, amount, he.symm, .inr rfl⟩
      exact ⟨r, (store_of_ne _ _ hk).trans hr, .inl rfl⟩
  | borrow a amount =>
      simp only [World.exec, World.borrow, bind_eq_ok, pure_eq_ok, Prod.exists] at h
      obtain ⟨m, q, o, hcheck, q', o', hled, t, -, rfl⟩ := h
      obtain ⟨hin, -, -⟩ := DebtAccounts.check_names hcheck
      obtain ⟨q₁, o₁, hacc, hbor, -, -⟩ := (Ledger.borrow_ok hled).steps
      exact idle_of_store hr hin.reserve rfl
        ((hw _ q hin.reserve).idle hacc (Reserve.pool_borrow hbor))
  | privateBorrow a amount encrypted =>
      simp only [World.exec, World.privateBorrow, bind_eq_ok, pure_eq_ok, Prod.exists] at h
      obtain ⟨m, q, o, hcheck, s, -, q', o', hled, t, -, s', -, rfl⟩ := h
      obtain ⟨hin, -, -⟩ := DebtAccounts.check_names hcheck
      obtain ⟨q₁, o₁, hacc, hbor, -, -⟩ := (Ledger.privateBorrow_ok hled).steps
      exact idle_of_store hr hin.reserve rfl
        ((hw _ q hin.reserve).idle hacc (Reserve.pool_borrow hbor))
  | repay a amount =>
      simp only [World.exec, World.repay, bind_eq_ok, pure_eq_ok, Prod.exists] at h
      obtain ⟨m, q, o, hcheck, -, -, q', o', hled, t, -, rfl⟩ := h
      obtain ⟨hin, -, -⟩ := DebtAccounts.check_names hcheck
      obtain ⟨q₁, i, o₁, hacc, hrep, -, -, -⟩ := Ledger.repay_ok hled
      exact idle_of_store hr hin.reserve rfl
        ((hw _ q hin.reserve).idle hacc (Reserve.pool_repay hrep))
  | liquidate a amount =>
      simp only [World.exec, World.liquidate, bind_eq_ok, Prod.exists] at h
      obtain ⟨m, o, -, s, hs, hsettle⟩ := h
      exact hw.seize_idle hr (Ledger.liquidate_ok hs) (settleSeizure_reserves hsettle)
  | executePrivateLiquidation a amount =>
      simp only [World.exec, World.executePrivateLiquidation, bind_eq_ok, pure_eq_ok,
        Prod.exists] at h
      obtain ⟨m, o, -, _, -, _, -, s, hs, v, hsettle, rfl⟩ := h
      have hv : v.reserves = s.reserves := settleSeizure_reserves hsettle
      exact hw.seize_idle hr (Ledger.executePrivateLiquidation_ok hs).2 hv
  | _ =>
      refine idle_of_same hr ?_
      repeat (obtain ⟨_, -, h⟩ := bind_eq_ok.mp h)
      cases h
      rfl

/-- The program keeps a share pool per reserve: in every reachable world an instruction that
succeeds does to the pool of each reserve what `PoolCall` says. -/
theorem pools_simulated (mxe : Mxe) (clock : Clock) (ixs : List Instruction) (ix : Instruction)
    (w w' : World) (k : Pubkey) (r : Reserve) (hrun : ixs.foldl (tx mxe) (genesis clock) = w)
    (h : w.exec mxe ix = .ok w') (hr : w.reserves k = some r) :
    ∃ r', w'.reserves k = some r' ∧ PoolCall w w' k r ix r'.pool := by
  have hw : w.Pooled := hrun ▸ pooled_run mxe clock ixs
  by_cases hix : ix.Saves k
  · obtain ⟨a, amount, rfl, rfl | rfl⟩ := hix
    · simp only [exec, World.deposit, bind_eq_ok, cpi_eq_ok, pure_eq_ok, Prod.exists] at h
      obtain ⟨m, q, hcheck, r', c, hled, t₁, htransfer, t₂, hmint, rfl⟩ := h
      cases (LiquidityAccounts.check_names hcheck).reserve.symm.trans hr
      obtain ⟨r₁, hacc, hdep⟩ := Ledger.deposit_ok hled
      have h₁ := ((hw _ r hr).accrueInterest hacc).sound
      obtain ⟨hpool, hc⟩ := h₁.pool_invest hdep
      have hpool₁ : r₁.pool = r.poolAt w.clock.slot := (hw _ r hr).pool_accrueInterest hacc
      refine ⟨r', store_self _ _ _, ?_⟩
      rw [hpool]
      refine .invest rfl hpool₁ fun x => ?_
      have hout := (TokenLedger.transfer_ok htransfer).2.2.2 x
      have hin := (TokenLedger.mintTo_ok hmint).2.2.2 x
      rw [hc] at hin
      show t₂.balance x + _ = _
      omega
    · simp only [exec, World.withdraw, bind_eq_ok, cpi_eq_ok, pure_eq_ok, Prod.exists] at h
      obtain ⟨m, q, hcheck, r', l, hled, t₁, hburn, t₂, htransfer, rfl⟩ := h
      cases (LiquidityAccounts.check_names hcheck).reserve.symm.trans hr
      obtain ⟨r₁, hacc, hred⟩ := Ledger.withdraw_ok hled
      have h₁ := ((hw _ r hr).accrueInterest hacc).sound
      obtain ⟨hpool, hl⟩ := h₁.pool_divest hred
      have hpool₁ : r₁.pool = r.poolAt w.clock.slot := (hw _ r hr).pool_accrueInterest hacc
      refine ⟨r', store_self _ _ _, ?_⟩
      rw [hpool]
      refine .divest rfl hpool₁ fun x => ?_
      have hout := (TokenLedger.burn_ok hburn).2.2.2 x
      have hin := (TokenLedger.transfer_ok htransfer).2.2.2 x
      rw [hl] at hin
      show t₂.balance x + _ + _ = _
      omega
  · obtain ⟨r', hr', hidle | haccrued⟩ := hw.exec_idle hr hix h
    · exact ⟨r', hr', hidle ▸ .idle hix⟩
    · exact ⟨r', hr', haccrued ▸ .accrue hix⟩

/-- A loan, and half a million slots of interest. -/
def growingRun : List Instruction := borrowedRun ++ [.advanceClock ⟨500000, 0⟩]

theorem pools_simulated_growing : ∃ w' r r',
    (growingRun.foldl (tx plainMxe) (genesis ⟨0, 0⟩)).exec plainMxe (.deposit (liquidityOf 1) 100) =
        .ok w' ∧
      r.pool.assets < r.assetsAt 500000 ∧ w'.reserves usdReserve = some r' ∧
      PoolCall (growingRun.foldl (tx plainMxe) (genesis ⟨0, 0⟩)) w' usdReserve r
        (.deposit (liquidityOf 1) 100) r'.pool := by
  have hsome : ((growingRun.foldl (tx plainMxe) (genesis ⟨0, 0⟩)).reserves usdReserve).any
      (fun r => r.pool.assets < r.assetsAt 500000) = true := by decide +kernel
  have hok : ((growingRun.foldl (tx plainMxe) (genesis ⟨0, 0⟩)).exec plainMxe
      (.deposit (liquidityOf 1) 100)).isOk = true := by decide +kernel
  obtain ⟨r, hr, hgrows⟩ := (Option.any_eq_true _ _).mp hsome
  obtain ⟨w', h⟩ := exists_ok_of_isOk hok
  obtain ⟨r', hr', hcall⟩ := pools_simulated plainMxe ⟨0, 0⟩ growingRun _ _ w' usdReserve r rfl h hr
  exact ⟨w', r, r', h, of_decide_eq_true hgrows, hr', hcall⟩

end World

end VeilVault
