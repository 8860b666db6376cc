/-
# VeilVault.World.Accounts — the private obligation an instruction names.

Each instruction names one private obligation or none.  With none it does the same whatever the
private obligations are, and leaves them (`exec_withPrivates`); what it does to the one it names is
one event of `PrivateEvent` (`exec_event`).  So a fact about events is a fact about transactions.
-/
import VeilVault.Private.Events
import VeilVault.World.Holders

namespace VeilVault

open Kit

/-- The private obligation an instruction names, and what happens to it. -/
def Instruction.privateEvent : Instruction → Option (Pubkey × PrivateEvent)
  | .initPrivateObligation payer market key => some (key, .init payer market)
  | .privateDepositCollateral a _ encrypted =>
      some (a.privateObligation, .depositCollateral a.reserve encrypted)
  | .privateBorrow a _ encrypted => some (a.privateObligation, .borrow a.reserve encrypted)
  | .privateCheckLiquidatable _ _ _ key rate cprice bprice ltv =>
      some (key, .check rate cprice bprice ltv)
  | .executePrivateLiquidation a _ => some (a.privateObligation, .liquidate)
  | .executeComputation key i fresh => some (key, .execute i fresh)
  | .callback key i => some (key, .deliver i)
  | .abortComputation key executed i => some (key, .abort executed i)
  | _ => none

namespace World

variable {mxe : Mxe} {w w' : World} {ix : Instruction} {key : Pubkey} {ev : PrivateEvent}

def withPrivates (w : World) (privates : Pubkey → Option PrivateState) : World :=
  { w with privates }

/-- The private obligation at an address, zeroed where there is none. -/
def account (w : World) (key : Pubkey) : PrivateState := loadOrInit w.privates key

theorem account_eq {s : PrivateState} (h : w.privates key = some s) : w.account key = s := by
  rw [account, loadOrInit, h]
  rfl

theorem exec_withPrivates (mxe : Mxe) (w : World) (privates : Pubkey → Option PrivateState)
    (hix : ix.privateEvent = none) :
    (w.withPrivates privates).exec mxe ix = (·.withPrivates privates) <$> w.exec mxe ix := by
  cases ix with
  | initPrivateObligation | privateDepositCollateral | privateBorrow | privateCheckLiquidatable
  | executePrivateLiquidation | executeComputation | callback | abortComputation => cases hix
  | liquidate a amount =>
      simp only [exec, World.liquidate, settleSeizure, map_bind, map_pure]
      rfl
  | _ =>
      simp only [exec, World.initializeMarket, World.setPause, World.updateMarketAuthority,
        World.addReserve, World.updateReserveConfig, World.refreshReserve, World.deposit,
        World.withdraw, World.initObligation, World.refreshObligation, World.depositCollateral,
        World.withdrawCollateral, World.borrow, World.repay, World.advanceClock, World.openMint,
        World.openTokenAccount, World.mintTokens, World.transferTokens, World.burnTokens,
        map_bind, map_pure]
      rfl

theorem exec_event_none (h : w.exec mxe ix = .ok w') (hix : ix.privateEvent = none) :
    w'.privates = w.privates := by
  have hsame : w.exec mxe ix = (·.withPrivates w.privates) <$> w.exec mxe ix :=
    exec_withPrivates mxe w w.privates hix
  rw [h] at hsame
  have hw' : w' = w'.withPrivates w.privates := Except.ok.inj hsame
  rw [hw']
  rfl

/-- What a successful instruction does to the private obligation it names. -/
theorem exec_event (h : w.exec mxe ix = .ok w') (hix : ix.privateEvent = some (key, ev)) :
    ∃ s, (w.account key).on mxe ev = .ok s ∧ w'.privates = store w.privates key s := by
  cases ix with
  | initPrivateObligation payer market k =>
      cases hix
      simp only [exec, World.initPrivateObligation, bind_eq_ok, pure_eq_ok] at h
      obtain ⟨-, -, -, -, -, -, s, hs, rfl⟩ := h
      exact ⟨s, hs, rfl⟩
  | privateDepositCollateral a amount encrypted =>
      cases hix
      simp only [exec, World.privateDepositCollateral, bind_eq_ok, pure_eq_ok, Prod.exists] at h
      obtain ⟨-, -, -, -, s, hs, -, -, -, -, -, -, s', hs', rfl⟩ := h
      rw [account_eq (privateOf_ok hs).1]
      exact ⟨s', hs', rfl⟩
  | privateBorrow a amount encrypted =>
      cases hix
      simp only [exec, World.privateBorrow, bind_eq_ok, pure_eq_ok, Prod.exists] at h
      obtain ⟨-, -, -, -, s, hs, -, -, -, -, -, s', hs', rfl⟩ := h
      rw [account_eq (privateOf_ok hs).1]
      exact ⟨s', hs', rfl⟩
  | privateCheckLiquidatable liquidator market owner k rate cprice bprice ltv =>
      cases hix
      simp only [exec, World.privateCheckLiquidatable, bind_eq_ok, pure_eq_ok] at h
      obtain ⟨-, -, -, -, s, hs, s', hs', rfl⟩ := h
      rw [account_eq (privateOf_ok hs).1]
      exact ⟨s', hs', rfl⟩
  | executePrivateLiquidation a amount =>
      cases hix
      simp only [exec, World.executePrivateLiquidation, bind_eq_ok, pure_eq_ok, Prod.exists] at h
      obtain ⟨_, _, -, s, hs, _, -, seizure, hseize, v, hsettle, rfl⟩ := h
      -- the handler tests the flag before it seizes
      have hflag : s.account.isLiquidatable = true := by
        simp only [Ledger.executePrivateLiquidation, bind_eq_ok, require_eq_ok, exists_const]
          at hseize
        exact hseize.2.1
      rw [account_eq (privateOf_ok hs).1]
      refine ⟨s.clearFlag, ?_, ?_⟩
      · simp only [PrivateState.on, hflag, require_pos, ok_bind]
        rfl
      · show store v.privates _ _ = _
        rw [settleSeizure_privates hsettle]
  -- the network's events check no account but the private one
  | executeComputation k i fresh =>
      cases hix
      simp only [exec, World.executeComputation, bind_eq_ok, load_eq_ok, pure_eq_ok] at h
      obtain ⟨s, hs, rfl⟩ := h
      rw [account_eq hs]
      exact ⟨_, rfl, rfl⟩
  | callback k i =>
      cases hix
      simp only [exec, World.callback, bind_eq_ok, load_eq_ok, pure_eq_ok] at h
      obtain ⟨s, hs, rfl⟩ := h
      rw [account_eq hs]
      exact ⟨_, rfl, rfl⟩
  | abortComputation k executed i =>
      cases hix
      simp only [exec, World.abortComputation, bind_eq_ok, load_eq_ok, pure_eq_ok] at h
      obtain ⟨s, hs, rfl⟩ := h
      rw [account_eq hs]
      exact ⟨_, rfl, rfl⟩
  | _ => cases hix

/-- A transaction leaves the private obligation at `key` alone, or does one event to it. -/
theorem tx_privates (mxe : Mxe) (w : World) (ix : Instruction) (key : Pubkey) :
    (w.tx mxe ix).privates key = w.privates key ∨
      ∃ ev s, ix.privateEvent = some (key, ev) ∧ (w.account key).on mxe ev = .ok s ∧
        (w.tx mxe ix).privates key = some s := by
  cases h : w.exec mxe ix with
  | error e =>
      left
      rw [tx, attemptStep, h]
  | ok w' =>
      rw [tx, attemptStep_ok h]
      cases hix : ix.privateEvent with
      | none =>
          left
          rw [exec_event_none h hix]
      | some p =>
          obtain ⟨k, ev⟩ := p
          obtain ⟨s, hs, hw'⟩ := exec_event h hix
          rw [hw']
          by_cases hk : key = k
          · subst hk
            exact .inr ⟨ev, s, rfl, hs, if_pos rfl⟩
          · exact .inl (if_neg hk)

/-- The private obligation of the pool's second user. -/
def secondPrivate : Pubkey := .privateObligation poolMarket (.key 2)

end World

end VeilVault
