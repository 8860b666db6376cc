/-
# VeilVault.World.Privacy — what the chain reveals about encrypted amounts.

Two runs whose instructions differ only in what is encrypted, by clients or by the cluster, stay
alike: the ciphertexts and the nonces differ, nothing else does, and the same instructions succeed.
The one way out is the bit of a health check, so the bits are assumed to be equal.  Instructions
that name no private obligation commute with replacing them all (`exec_withPrivates`); the others
are followed through one by one.
-/
import VeilVault.Private.Visible
import VeilVault.World.Accounts

namespace VeilVault

open Kit

/-- The instruction without what is encrypted in it. -/
def Instruction.visible : Instruction → Instruction
  | .privateDepositCollateral a amount _ => .privateDepositCollateral a amount .blank
  | .privateBorrow a amount _ => .privateBorrow a amount .blank
  | .executeComputation key i _ => .executeComputation key i 0
  | ix => ix

namespace World

/-! ## Worlds that look alike -/

def visible (w : World) : World :=
  w.withPrivates fun key => (w.privates key).map (·.visible)

/-- Nothing but ciphertexts and nonces differs, in the accounts and in what is in flight. -/
def Alike (w v : World) : Prop := w.visible = v.visible

/-- All balances and all fields are equal, except `enc_state` and `nonce`. -/
structure SamePublic (w v : World) : Prop where
  clock : w.clock = v.clock
  markets : w.markets = v.markets
  reserves : w.reserves = v.reserves
  obligations : w.obligations = v.obligations
  tokens : w.tokens = v.tokens
  privates : ∀ key, (w.privates key).map (·.account.visible) =
    (v.privates key).map (·.account.visible)

variable {w v : World}

theorem Alike.eq_withPrivates (h : w.Alike v) : v = w.withPrivates v.privates := by
  obtain ⟨clock, markets, reserves, obligations, privates, tokens⟩ := v
  simp only [Alike, visible, withPrivates, mk.injEq] at h
  obtain ⟨rfl, rfl, rfl, rfl, -, rfl⟩ := h
  rfl

theorem Alike.privates (h : w.Alike v) (key : Pubkey) :
    (w.privates key).map (·.visible) = (v.privates key).map (·.visible) :=
  congrFun (congrArg World.privates h) key

theorem Alike.samePublic (h : w.Alike v) : w.SamePublic v where
  clock := (congrArg World.clock h.eq_withPrivates).symm
  markets := (congrArg World.markets h.eq_withPrivates).symm
  reserves := (congrArg World.reserves h.eq_withPrivates).symm
  obligations := (congrArg World.obligations h.eq_withPrivates).symm
  tokens := (congrArg World.tokens h.eq_withPrivates).symm
  privates key := by
    have hkey := congrArg (Option.map PrivateState.account) (h.privates key)
    rwa [Option.map_map, Option.map_map] at hkey

/-- Storing private states that look alike keeps all of them alike. -/
theorem Alike.storePrivate (h : w.Alike v) {s t : PrivateState} (hst : s.visible = t.visible)
    (key : Pubkey) : (fun k => (store w.privates key s k).map (·.visible)) =
      fun k => (store v.privates key t k).map (·.visible) := by
  funext k
  unfold store
  split
  · exact congrArg some hst
  · exact h.privates k

/-- What was loaded looks alike. -/
theorem Alike.loadPrivate (h : w.Alike v) (key : Pubkey) :
    PrivateState.visible <$> load w.privates key =
      PrivateState.visible <$> load v.privates key := by
  have hkey := h.privates key
  unfold load
  cases hw : w.privates key <;> cases hv : v.privates key <;> simp_all

theorem Alike.exec_public (h : w.Alike v) (mxe : Mxe) {ix : Instruction}
    (hpub : ix.privateEvent = none) : visible <$> w.exec mxe ix = visible <$> v.exec mxe ix := by
  have hw : w.exec mxe ix = (·.withPrivates w.privates) <$> w.exec mxe ix :=
    exec_withPrivates mxe w w.privates hpub
  rw [h.eq_withPrivates, exec_withPrivates mxe w v.privates hpub, hw, ← comp_map, ← comp_map,
    ← comp_map]
  apply congrArg (· <$> w.exec mxe ix)
  funext u
  show u.withPrivates _ = u.withPrivates _
  exact congrArg u.withPrivates (funext h.privates)

/-! ## Private instructions -/

theorem Alike.privateOf (h : w.Alike v) (market user key : Pubkey) :
    PrivateState.visible <$> w.privateOf market user key =
      PrivateState.visible <$> v.privateOf market user key := by
  apply map_bind_congr (h.loadPrivate key)
  intro s t hst
  -- the address is tested, not the account
  apply map_bind_right
  intro _
  exact congrArg Except.ok hst

theorem Alike.initPrivateObligation (h : w.Alike v) (payer market key : Pubkey) :
    visible <$> w.initPrivateObligation payer market key =
      visible <$> v.initPrivateObligation payer market key := by
  have hload : (loadOrInit w.privates key).visible = (loadOrInit v.privates key).visible := by
    have hkey := h.privates key
    unfold loadOrInit
    cases hw : w.privates key <;> cases hv : v.privates key <;> simp_all
  rw [h.eq_withPrivates] at hload ⊢
  apply map_bind_right
  intro _
  apply map_bind_right
  intro _
  apply map_bind_right
  intro _
  have hs := PrivateState.visible_initPrivateObligation (loadOrInit w.privates key) payer market
  rw [hload, PrivateState.visible_initPrivateObligation] at hs
  apply map_bind_congr hs.symm
  intro s t hst
  exact congrArg (fun p => Except.ok (w.withPrivates p)) (h.storePrivate hst key)

theorem Alike.privateDepositCollateral (h : w.Alike v) (a : PrivateCollateralAccounts)
    (collateralAmount : U64) (encrypted encrypted' : SharedAmount) :
    visible <$> w.privateDepositCollateral a collateralAmount encrypted =
      visible <$> v.privateDepositCollateral a collateralAmount encrypted' := by
  have hprivate := h.privateOf a.lendingMarket a.depositor a.privateObligation
  rw [h.eq_withPrivates] at hprivate ⊢
  apply map_bind_right
  rintro ⟨market, reserve, obligation⟩
  apply map_bind_congr hprivate
  intro s t hst
  obtain ⟨howner, hinit, -⟩ := PrivateState.tested_of_visible hst
  rw [howner, hinit]
  apply map_bind_right
  intro _
  apply map_bind_right
  intro obligation'
  apply map_bind_right
  intro tokens
  have hs := s.visible_privateDepositCollateral a.reserve encrypted
  rw [hst, PrivateState.visible_privateDepositCollateral] at hs
  apply map_bind_congr hs.symm
  intro s' t' hst'
  exact congrArg (fun p => Except.ok (World.withPrivates _ p))
    (h.storePrivate hst' a.privateObligation)

theorem Alike.privateBorrow (h : w.Alike v) (a : PrivateDebtAccounts) (amount : U64)
    (encrypted encrypted' : SharedAmount) :
    visible <$> w.privateBorrow a amount encrypted =
      visible <$> v.privateBorrow a amount encrypted' := by
  have hprivate := h.privateOf a.lendingMarket a.borrower a.privateObligation
  rw [h.eq_withPrivates] at hprivate ⊢
  apply map_bind_right
  rintro ⟨market, reserve, obligation⟩
  apply map_bind_congr hprivate
  intro s t hst
  obtain ⟨-, hinit, -⟩ := PrivateState.tested_of_visible hst
  rw [hinit]
  apply map_bind_right
  rintro ⟨reserve', obligation'⟩
  apply map_bind_right
  intro tokens
  have hs := s.visible_privateBorrow a.reserve encrypted
  rw [hst, PrivateState.visible_privateBorrow] at hs
  apply map_bind_congr hs.symm
  intro s' t' hst'
  exact congrArg (fun p => Except.ok (World.withPrivates _ p))
    (h.storePrivate hst' a.privateObligation)

theorem Alike.privateCheckLiquidatable (h : w.Alike v)
    (liquidator market owner key : Pubkey) (rate cprice bprice ltv : U64) :
    visible <$> w.privateCheckLiquidatable liquidator market owner key rate cprice bprice ltv =
      visible <$> v.privateCheckLiquidatable liquidator market owner key rate cprice bprice
        ltv := by
  have hprivate := h.privateOf market owner key
  rw [h.eq_withPrivates] at hprivate ⊢
  apply map_bind_right
  intro _
  apply map_bind_right
  intro _
  apply map_bind_congr hprivate
  intro s t hst
  have hs := s.visible_privateCheckLiquidatable rate cprice bprice ltv
  rw [hst, PrivateState.visible_privateCheckLiquidatable] at hs
  apply map_bind_congr hs.symm
  intro s' t' hst'
  exact congrArg (fun p => Except.ok (w.withPrivates p)) (h.storePrivate hst' key)

/-- The flag is one of the fields that are seen; the amounts seized do not depend on the rest. -/
theorem Alike.executePrivateLiquidation (h : w.Alike v) (a : PrivateLiquidationAccounts)
    (repayAmount : U64) :
    visible <$> w.executePrivateLiquidation a repayAmount =
      visible <$> v.executePrivateLiquidation a repayAmount := by
  have hprivate := h.privateOf a.lendingMarket a.obligationOwner a.privateObligation
  rw [h.eq_withPrivates] at hprivate ⊢
  apply map_bind_right
  rintro ⟨market, obligation⟩
  apply map_bind_congr hprivate
  intro s t hst
  obtain ⟨-, -, hflag⟩ := PrivateState.tested_of_visible hst
  rw [hflag]
  apply map_bind_right
  intro _
  apply map_bind_right
  intro seizure
  simp only [settleSeizure, bind_assoc]
  apply map_bind_right
  intro tokens
  apply map_bind_right
  intro tokens'
  have hclear : s.clearFlag.visible = t.clearFlag.visible := by
    rw [← s.visible_clearFlag, hst, t.visible_clearFlag]
  exact congrArg (fun p => Except.ok (World.withPrivates _ p))
    (h.storePrivate hclear a.privateObligation)

theorem Alike.callback (h : w.Alike v) (key : Pubkey) (i : Nat) :
    visible <$> w.callback key i = visible <$> v.callback key i := by
  have hload := h.loadPrivate key
  rw [h.eq_withPrivates] at hload ⊢
  apply map_bind_congr hload
  intro s t hst
  have hdeliver : (s.deliver i).visible = (t.deliver i).visible := by
    rw [← s.visible_deliver, hst, t.visible_deliver]
  exact congrArg (fun p => Except.ok (w.withPrivates p)) (h.storePrivate hdeliver key)

theorem Alike.abortComputation (h : w.Alike v) (key : Pubkey) (executed : Bool) (i : Nat) :
    visible <$> w.abortComputation key executed i =
      visible <$> v.abortComputation key executed i := by
  have hload := h.loadPrivate key
  rw [h.eq_withPrivates] at hload ⊢
  apply map_bind_congr hload
  intro s t hst
  have habort : (s.abort executed i).visible = (t.abort executed i).visible := by
    rw [s.visible_abort, hst, t.visible_abort]
  exact congrArg (fun p => Except.ok (w.withPrivates p)) (h.storePrivate habort key)

/-! ## Two runs -/

/-- The bit an instruction reveals: executing a health check does. -/
def revealed (mxe : Mxe) (w : World) : Instruction → Option Bool
  | .executeComputation key i _ => (w.privates key).bind fun s => s.verdict mxe i
  | _ => none

theorem Alike.executeComputation {mxe : Mxe} {key : Pubkey} {i : Nat} (h : w.Alike v)
    (fresh fresh' : U128) (hbit : w.revealed mxe (.executeComputation key i fresh) =
      v.revealed mxe (.executeComputation key i fresh')) :
    visible <$> w.executeComputation mxe key i fresh =
      visible <$> v.executeComputation mxe key i fresh' := by
  have hload := h.privates key
  simp only [revealed] at hbit
  unfold World.executeComputation load
  cases hw : w.privates key with
  | none =>
      cases hv : v.privates key with
      | none => rfl
      | some t =>
          rw [hw, hv] at hload
          cases hload
  | some s =>
      cases hv : v.privates key with
      | none =>
          rw [hw, hv] at hload
          cases hload
      | some t =>
          rw [hw, hv] at hload hbit
          have hst := PrivateState.visible_execute fresh fresh' (Option.some.inj hload) hbit
          have hstored := h.storePrivate hst key
          rw [h.eq_withPrivates] at hstored ⊢
          exact congrArg (fun p => Except.ok (w.withPrivates p)) hstored

/-- The two runs step by step: a transaction of each. -/
def txPair (mxe : Mxe) (p : World × World) (ixs : Instruction × Instruction) : World × World :=
  (p.1.tx mxe ixs.1, p.2.tx mxe ixs.2)

/-- Health checks executed in the two runs reveal the same bit. -/
def SameVerdict (mxe : Mxe) (p : World × World) (ixs : Instruction × Instruction) : Prop :=
  p.1.revealed mxe ixs.1 = p.2.revealed mxe ixs.2

instance decidableSameVerdict (mxe : Mxe) (p : World × World) (ixs : Instruction × Instruction) :
    Decidable (SameVerdict mxe p ixs) :=
  inferInstanceAs (Decidable (p.1.revealed mxe ixs.1 = p.2.revealed mxe ixs.2))

/-- One instruction of each run, alike apart from what is encrypted. -/
theorem Alike.exec {mxe : Mxe} {ix jx : Instruction} (h : w.Alike v)
    (hix : ix.visible = jx.visible) (hbit : SameVerdict mxe (w, v) (ix, jx)) :
    visible <$> w.exec mxe ix = visible <$> v.exec mxe jx := by
  cases ix with
  | initPrivateObligation payer market key =>
      cases jx <;> cases hix
      exact h.initPrivateObligation payer market key
  | privateDepositCollateral a amount encrypted =>
      cases jx <;> cases hix
      exact h.privateDepositCollateral a amount encrypted _
  | privateBorrow a amount encrypted =>
      cases jx <;> cases hix
      exact h.privateBorrow a amount encrypted _
  | privateCheckLiquidatable liquidator market owner key rate cprice bprice ltv =>
      cases jx <;> cases hix
      exact h.privateCheckLiquidatable liquidator market owner key rate cprice bprice ltv
  | executePrivateLiquidation a amount =>
      cases jx <;> cases hix
      exact h.executePrivateLiquidation a amount
  | executeComputation key i fresh =>
      cases jx <;> cases hix
      exact h.executeComputation fresh _ hbit
  | callback key i =>
      cases jx <;> cases hix
      exact h.callback key i
  | abortComputation key executed i =>
      cases jx <;> cases hix
      exact h.abortComputation key executed i
  | _ =>
      cases jx <;> cases hix
      exact h.exec_public mxe rfl

theorem isOk_congr {x y : Result World} (h : visible <$> x = visible <$> y) :
    x.isOk = y.isOk := by
  cases x <;> cases y <;> first | rfl | cases h

theorem Alike.tx {mxe : Mxe} {ix jx : Instruction} (h : w.Alike v)
    (hexec : visible <$> w.exec mxe ix = visible <$> v.exec mxe jx) :
    (w.tx mxe ix).Alike (v.tx mxe jx) := by
  unfold World.tx attemptStep
  cases hw : w.exec mxe ix with
  | ok w' =>
      cases hv : v.exec mxe jx with
      | ok v' =>
          rw [hw, hv] at hexec
          exact Except.ok.inj hexec
      | error e =>
          rw [hw, hv] at hexec
          cases hexec
  | error e =>
      cases hv : v.exec mxe jx with
      | ok v' =>
          rw [hw, hv] at hexec
          cases hexec
      | error e' => exact h

/-- Two runs that differ in what is encrypted, and reveal the same bits, agree on everything public
after every step, and on which instructions succeed. -/
theorem samePublic_run (mxe : Mxe) (clock : Clock) (ixs : List (Instruction × Instruction))
    (hsame : ∀ p ∈ ixs, p.1.visible = p.2.visible)
    (hbits : EachStep (txPair mxe) (SameVerdict mxe) (genesis clock, genesis clock) ixs) :
    Always (txPair mxe) (fun p => p.1.SamePublic p.2) (genesis clock, genesis clock) ixs ∧
      EachStep (txPair mxe) (fun p q => (p.1.exec mxe q.1).isOk = (p.2.exec mxe q.2).isOk)
        (genesis clock, genesis clock) ixs := by
  let Allowed : World × World → Instruction × Instruction → Prop := fun p q =>
    q.1.visible = q.2.visible ∧ SameVerdict mxe p q
  let Inv : World × World → Prop := fun p => p.1.Alike p.2
  have hstart : Inv (genesis clock, genesis clock) := rfl
  have hkeep : ∀ p q, Inv p → Allowed p q → Inv (txPair mxe p q) := by
    intro p q h hq
    exact h.tx (h.exec hq.1 hq.2)
  have hallowed : EachStep (txPair mxe) Allowed (genesis clock, genesis clock) ixs :=
    hbits.imp_mem fun p q hq hbit => ⟨hsame q hq, hbit⟩
  constructor
  · have hrun := always_of_eachStep hkeep ixs _ hstart hallowed
    exact hrun.imp fun p h => h.samePublic
  · exact eachStep_of_eachStep hkeep (fun p q h hq => isOk_congr (h.exec hq.1 hq.2)) ixs _ hstart
      hallowed

/-- The second user encrypts another amount. -/
def recode : Instruction → Instruction
  | .privateBorrow a amount _ => .privateBorrow a amount (plainAmount 50)
  | ix => ix

theorem visible_recode (ix : Instruction) : (recode ix).visible = ix.visible := by
  cases ix <;> rfl

/-- The flagged run, with 100 encrypted in one run and 50 in the other. -/
def flaggedPairs : List (Instruction × Instruction) :=
  flaggedRun.map fun ix => (ix, recode ix)

theorem samePublic_run_flagged :
    Always (txPair plainMxe) (fun p => p.1.SamePublic p.2) (genesis ⟨0, 0⟩, genesis ⟨0, 0⟩)
        flaggedPairs ∧
      EachStep (txPair plainMxe) (fun p q => (p.1.exec plainMxe q.1).isOk =
        (p.2.exec plainMxe q.2).isOk) (genesis ⟨0, 0⟩, genesis ⟨0, 0⟩) flaggedPairs := by
  apply samePublic_run
  · intro p hp
    obtain ⟨ix, -, rfl⟩ := List.mem_map.mp hp
    exact (visible_recode ix).symm
  · decide +kernel

end World

end VeilVault
