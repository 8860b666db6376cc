/-
# VeilVault.World.Simulation — the program keeps maps of positions.

What a user has is two finite maps, of cTokens and of debts by reserve; what an instruction is for
is one or two payments on them.  The world is a simulation of that: from any world a run reaches,
a successful instruction does to the maps of every obligation exactly the payments it asks for, with
interest before them, and nothing to the maps of the others (`positions_simulated`).  The slot
tables underneath stay tidy: distinct keys, counters that count, blank free slots.
-/
import VeilVault.Ledger.Simulation
import VeilVault.World.Links

namespace VeilVault

open Kit

/-- The payments an instruction asks of the obligation at `x`.  A liquidation pays no more than it
was offered. -/
def Instruction.Asks (x : Pubkey) (payments : List Position.Op) : Instruction → Prop
  | .depositCollateral a n => x = a.obligation ∧ payments = [.deposit a.reserve n.toNat]
  | .privateDepositCollateral a n _ => x = a.obligation ∧ payments = [.deposit a.reserve n.toNat]
  | .withdrawCollateral a n => x = a.obligation ∧ payments = [.withdraw a.reserve n.toNat]
  | .borrow a n => x = a.obligation ∧ payments = [.borrow a.reserve n.toNat]
  | .privateBorrow a n _ => x = a.obligation ∧ payments = [.borrow a.reserve n.toNat]
  | .repay a n => x = a.obligation ∧ payments = [.repay a.reserve n.toNat]
  | .liquidate a n => x = a.obligation ∧ ∃ repaid seized : ℕ, repaid ≤ n.toNat ∧
      payments = [.repay a.repayReserve repaid, .withdraw a.withdrawReserve seized]
  | .executePrivateLiquidation a n => x = a.obligation ∧ ∃ repaid seized : ℕ, repaid ≤ n.toNat ∧
      payments = [.repay a.repayReserve repaid, .withdraw a.withdrawReserve seized]
  | .refreshObligation _ key _ => x = key ∧ payments = []
  | _ => False

namespace World

variable {mxe : Mxe} {w w' : World} {ix : Instruction} {x : Pubkey} {o : Obligation}

/-- The obligation at `x` is paid as the instruction asks, or not asked for anything. -/
def Acts (w' : World) (ix : Instruction) (x : Pubkey) (o : Obligation) : Prop :=
  ∃ o', w'.obligations x = some o' ∧
    (((∀ payments, ¬ ix.Asks x payments) ∧ o' = o) ∨
      ∃ payments, ix.Asks x payments ∧ o.Pays payments o')

/-- An instruction that stores one obligation, and asks payments of no other. -/
theorem acts_of_store {y : Pubkey} {p p' : Obligation} {payments : List Position.Op}
    (hp : w.obligations y = some p) (hstore : w'.obligations = store w.obligations y p')
    (hasks : ix.Asks y payments) (hone : ∀ x payments, ix.Asks x payments → x = y)
    (hpays : p.Pays payments p') (ho : w.obligations x = some o) : Acts w' ix x o := by
  by_cases hxy : x = y
  · subst hxy
    cases hp.symm.trans ho
    exact ⟨p', by rw [hstore, store_self], .inr ⟨payments, hasks, hpays⟩⟩
  · refine ⟨o, by rw [hstore, store_of_ne _ _ hxy, ho], .inl ⟨fun ps hps => ?_, rfl⟩⟩
    exact hxy (hone x ps hps)

/-- Every slot table is in order. -/
def Tidy (w : World) : Prop := ∀ x o, w.obligations x = some o → o.Tidy

theorem exec_acts (hw : w.Linked) (ht : w.Tidy) (h : w.exec mxe ix = .ok w')
    (ho : w.obligations x = some o) : Acts w' ix x o := by
  have hreserve {k : Pubkey} {r : Reserve} (hr : w.reserves k = some r) : k ≠ default :=
    Pubkey.ne_default (not_wallet_of_seeds (hw.wellFormed k r hr).key)
  cases ix with
  | initObligation owner market key =>
      simp only [exec, World.initObligation, bind_eq_ok, vacant_eq_ok, seeds_eq_ok, exists_const,
        pure_eq_ok] at h
      obtain ⟨-, -, m, hm, hnew, hkey, rfl⟩ := h
      have hne : x ≠ key := by
        rintro rfl
        cases hnew.symm.trans ho
      exact ⟨o, (store_of_ne _ _ hne).trans ho, .inl ⟨fun _ hasks => hasks, rfl⟩⟩
  | refreshObligation market key accounts =>
      simp only [exec, World.refreshObligation, bind_eq_ok, load_eq_ok, pure_eq_ok] at h
      obtain ⟨-, -, p, hp, p', hrefresh, rfl⟩ := h
      have hp' := (obligationIn_ok hp).1
      exact acts_of_store hp' rfl ⟨rfl, rfl⟩ (fun _ _ hasks => hasks.1)
        (Ledger.pays_refreshObligation (ht _ _ hp') hrefresh) ho
  | depositCollateral a n =>
      simp only [exec, World.depositCollateral, bind_eq_ok, pure_eq_ok, Prod.exists] at h
      obtain ⟨m, r, p, hcheck, p', hled, t, -, rfl⟩ := h
      obtain ⟨hin, hp, -⟩ := CollateralAccounts.check_names hcheck
      exact acts_of_store hp rfl ⟨rfl, rfl⟩ (fun _ _ hasks => hasks.1)
        (Ledger.pays_deposit (ht _ _ hp) hin.ne_default (Ledger.depositCollateral_ok hled)) ho
  | privateDepositCollateral a n encrypted =>
      simp only [exec, World.privateDepositCollateral, bind_eq_ok, pure_eq_ok, Prod.exists] at h
      obtain ⟨m, r, p, hcheck, s, -, -, -, p', hled, t, -, s', -, rfl⟩ := h
      obtain ⟨hin, hp, -⟩ := CollateralAccounts.check_names hcheck
      exact acts_of_store hp rfl ⟨rfl, rfl⟩ (fun _ _ hasks => hasks.1)
        (Ledger.pays_deposit (ht _ _ hp) hin.ne_default
          (Ledger.privateDepositCollateral_ok hled)) ho
  | withdrawCollateral a n =>
      simp only [exec, World.withdrawCollateral, bind_eq_ok, pure_eq_ok, Prod.exists] at h
      obtain ⟨m, r, p, hcheck, p', hled, t, -, rfl⟩ := h
      obtain ⟨hin, hp, -⟩ := CollateralAccounts.check_names hcheck
      exact acts_of_store hp rfl ⟨rfl, rfl⟩ (fun _ _ hasks => hasks.1)
        (Ledger.pays_withdrawCollateral (ht _ _ hp) hin.ne_default hled) ho
  | borrow a n =>
      simp only [exec, World.borrow, bind_eq_ok, pure_eq_ok, Prod.exists] at h
      obtain ⟨m, r, p, hcheck, r', p', hled, t, -, rfl⟩ := h
      obtain ⟨hin, hp, -⟩ := DebtAccounts.check_names hcheck
      exact acts_of_store hp rfl ⟨rfl, rfl⟩ (fun _ _ hasks => hasks.1)
        (Ledger.pays_borrow (ht _ _ hp) hin.ne_default (Ledger.borrow_ok hled)) ho
  | privateBorrow a n encrypted =>
      simp only [exec, World.privateBorrow, bind_eq_ok, pure_eq_ok, Prod.exists] at h
      obtain ⟨m, r, p, hcheck, s, -, r', p', hled, t, -, s', -, rfl⟩ := h
      obtain ⟨hin, hp, -⟩ := DebtAccounts.check_names hcheck
      exact acts_of_store hp rfl ⟨rfl, rfl⟩ (fun _ _ hasks => hasks.1)
        (Ledger.pays_borrow (ht _ _ hp) hin.ne_default (Ledger.privateBorrow_ok hled)) ho
  | repay a n =>
      simp only [exec, World.repay, bind_eq_ok, pure_eq_ok, Prod.exists] at h
      obtain ⟨m, r, p, hcheck, -, -, r', p', hled, t, -, rfl⟩ := h
      obtain ⟨hin, hp, -⟩ := DebtAccounts.check_names hcheck
      exact acts_of_store hp rfl ⟨rfl, rfl⟩ (fun _ _ hasks => hasks.1)
        (Ledger.pays_repay (ht _ _ hp) hin.ne_default hled) ho
  | liquidate a n =>
      simp only [exec, World.liquidate, bind_eq_ok, Prod.exists] at h
      obtain ⟨m, p, hcheck, s, hs, hsettle⟩ := h
      obtain ⟨-, hp, -, ⟨r, hr, -⟩, q, hq, -⟩ := LiquidationAccounts.check_names hcheck
      obtain ⟨hle, hpays⟩ := Ledger.pays_seize (ht _ _ hp) (hreserve hr) (hreserve hq)
        (Ledger.liquidate_ok hs)
      exact acts_of_store hp (settleSeizure_obligations hsettle) ⟨rfl, _, _, hle, rfl⟩
        (fun _ _ hasks => hasks.1) hpays ho
  | executePrivateLiquidation a n =>
      simp only [exec, World.executePrivateLiquidation, bind_eq_ok, pure_eq_ok, Prod.exists] at h
      obtain ⟨m, p, hcheck, _, -, _, -, s, hs, v, hsettle, rfl⟩ := h
      obtain ⟨-, hp, -, ⟨r, hr, -⟩, q, hq, -⟩ := LiquidationAccounts.check_names hcheck
      obtain ⟨hle, hpays⟩ := Ledger.pays_seize (ht _ _ hp) (hreserve hr) (hreserve hq)
        (Ledger.executePrivateLiquidation_ok hs).2
      have hv : v.obligations = store w.obligations a.obligation s.obligation :=
        settleSeizure_obligations hsettle
      exact acts_of_store hp hv ⟨rfl, _, _, hle, rfl⟩ (fun _ _ hasks => hasks.1) hpays ho
  | _ =>
      refine ⟨o, ?_, .inl ⟨fun _ hasks => hasks, rfl⟩⟩
      rw [← ho]
      repeat (obtain ⟨_, -, h⟩ := bind_eq_ok.mp h)
      cases h
      rfl

theorem Tidy.exec (hw : w.Linked) (ht : w.Tidy) (h : w.exec mxe ix = .ok w') : w'.Tidy := by
  intro x o' ho'
  cases ho : w.obligations x with
  | some o =>
      obtain ⟨p, hp, ⟨-, rfl⟩ | ⟨payments, -, hpays⟩⟩ := exec_acts hw ht h ho
      · cases hp.symm.trans ho'
        exact ht x _ ho
      · cases hp.symm.trans ho'
        exact hpays.tidy
  | none =>
      rcases exec_obligation h with hsame | ⟨y, owner, M, m, -, -, -, -, -, hstore⟩ |
        ⟨y, p, p', hp, -, hstore⟩
      · cases (hsame ▸ ho).symm.trans ho'
      · by_cases hxy : x = y
        · subst hxy
          rw [hstore, store_self] at ho'
          cases ho'
          exact Obligation.tidy_init owner M
        · rw [hstore, store_of_ne _ _ hxy, ho] at ho'
          cases ho'
      · have hxy : x ≠ y := by
          rintro rfl
          cases hp.symm.trans ho
        rw [hstore, store_of_ne _ _ hxy, ho] at ho'
        cases ho'

theorem tidy_run (mxe : Mxe) (clock : Clock) (ixs : List Instruction) :
    (ixs.foldl (tx mxe) (genesis clock)).Tidy := by
  let Inv : World → Prop := fun w => w.Addressed ∧ w.Linked ∧ w.Tidy
  have hstart : Inv (genesis clock) :=
    ⟨⟨nofun, nofun⟩, ⟨nofun, nofun, nofun, nofun, nofun⟩, nofun⟩
  have hrun : Inv (ixs.foldl (tx mxe) (genesis clock)) := by
    apply run_invariant ixs hstart
    rintro ix - v v' ⟨ha, hw, ht⟩ h
    exact ⟨ha.exec h, hw.exec ha h, ht.exec hw h⟩
  exact hrun.2.2

end World

end VeilVault
