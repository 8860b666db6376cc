/-
# VeilVault.World.Holders — whose account an address is.

An obligation and a private obligation each record an owner and a market, and each lives at the
address derived from them; no instruction rewrites the two fields afterwards.  So an instruction
that derives the address knows the owner.  `execute_private_liquidation` derives the address of the
private obligation, whose flag it reads, and not that of the obligation it seizes from.
-/
import VeilVault.World.Vaults

namespace VeilVault

open Kit

/-! ## Private obligations keep their holder -/

namespace PrivateState

variable {s s' : PrivateState}

/-- Whose private obligation it is, and in which market. -/
structure SameHolder (s s' : PrivateState) : Prop where
  owner : s'.account.owner = s.account.owner
  lendingMarket : s'.account.lendingMarket = s.account.lendingMarket

theorem SameHolder.refl (s : PrivateState) : s.SameHolder s := ⟨rfl, rfl⟩

theorem initPrivateObligation_holder {owner market : Pubkey}
    (h : s.initPrivateObligation owner market = .ok s') :
    s'.account.owner = owner ∧ s'.account.lendingMarket = market := by
  simp only [initPrivateObligation, bind_eq_ok, require_eq_ok, exists_const, pure_eq_ok] at h
  obtain ⟨-, rfl⟩ := h
  exact ⟨rfl, rfl⟩

theorem sameHolder_privateDepositCollateral {k : Pubkey} {amount : SharedAmount}
    (h : s.privateDepositCollateral k amount = .ok s') : s.SameHolder s' := by
  simp only [privateDepositCollateral, bind_eq_ok, require_eq_ok, exists_const, pure_eq_ok] at h
  obtain ⟨-, rfl⟩ := h
  constructor
  · show (ite _ _ _ : PrivateObligation).owner = _
    split <;> rfl
  · show (ite _ _ _ : PrivateObligation).lendingMarket = _
    split <;> rfl

theorem sameHolder_privateBorrow {k : Pubkey} {amount : SharedAmount}
    (h : s.privateBorrow k amount = .ok s') : s.SameHolder s' := by
  simp only [privateBorrow, bind_eq_ok, require_eq_ok, exists_const, pure_eq_ok] at h
  obtain ⟨-, rfl⟩ := h
  constructor
  · show (ite _ _ _ : PrivateObligation).owner = _
    split <;> rfl
  · show (ite _ _ _ : PrivateObligation).lendingMarket = _
    split <;> rfl

theorem sameHolder_privateCheckLiquidatable {rate cprice bprice ltv : U64}
    (h : s.privateCheckLiquidatable rate cprice bprice ltv = .ok s') : s.SameHolder s' := by
  simp only [privateCheckLiquidatable, bind_eq_ok, require_eq_ok, exists_const, pure_eq_ok] at h
  obtain ⟨-, rfl⟩ := h
  exact ⟨rfl, rfl⟩

theorem sameHolder_execute (mxe : Mxe) (s : PrivateState) (i : Nat) (fresh : U128) :
    s.SameHolder (s.execute mxe i fresh) := by
  unfold execute
  split
  · exact ⟨rfl, rfl⟩
  · exact .refl s

theorem sameHolder_deliver (s : PrivateState) (i : Nat) : s.SameHolder (s.deliver i) := by
  unfold deliver
  split
  case h_1 out _ => cases out <;> exact ⟨rfl, rfl⟩
  case h_2 => exact .refl s

theorem sameHolder_abort (s : PrivateState) (executed : Bool) (i : Nat) :
    s.SameHolder (s.abort executed i) := by
  cases executed <;> exact ⟨rfl, rfl⟩

end PrivateState

/-! ## Addresses name holders -/

namespace World

/-- Every obligation and private obligation lives at the address derived from its own fields. -/
structure Addressed (w : World) : Prop where
  obligations : ∀ x o, w.obligations x = some o → x = .obligation o.lendingMarket o.owner
  privates : ∀ x s, w.privates x = some s →
    x = .privateObligation s.account.lendingMarket s.account.owner

variable {w w' : World}

/-- Storing an obligation of the same holder back keeps the addresses. -/
theorem Addressed.storeObligation (hw : w.Addressed) {x : Pubkey} {o o' : Obligation}
    (ho : w.obligations x = some o) (hh : o.SameHolder o') :
    ∀ y p, store w.obligations x o' y = some p → y = .obligation p.lendingMarket p.owner := by
  apply forall_store hw.obligations
  rw [hh.owner, hh.lendingMarket]
  exact hw.obligations x o ho

theorem Addressed.storePrivate (hw : w.Addressed) {x : Pubkey} {s s' : PrivateState}
    (hs : w.privates x = some s) (hh : s.SameHolder s') :
    ∀ y p, store w.privates x s' y = some p →
      y = .privateObligation p.account.lendingMarket p.account.owner := by
  apply forall_store hw.privates
  rw [hh.owner, hh.lendingMarket]
  exact hw.privates x s hs

theorem addressed_obligations (hw : w.Addressed) {ks : List Pubkey} {b : Books}
    (h : Books.Step w.clock w.books ks b) :
    ∀ x o, b.obligations x = some o → x = .obligation o.lendingMarket o.owner := by
  cases h with
  | idle | wallet | addReserve | updateConfig | refreshReserve | deposit | withdraw =>
      exact hw.obligations
  | initObligation hx => exact forall_store hw.obligations hx
  | refreshObligation ho h => exact hw.storeObligation ho (Ledger.frame_refreshObligation h).1
  | depositCollateral ho hk hsign h =>
      exact hw.storeObligation ho (Obligation.sameHolder_deposit (Pubkey.ne_default hk) h)
  | withdrawCollateral ho hk h =>
      exact hw.storeObligation ho (Ledger.frame_withdrawCollateral h).1
  | borrow ho hk hr h => exact hw.storeObligation ho (h.frame (Pubkey.ne_default hk)).1
  | repay ho hk hr hsign h => exact hw.storeObligation ho (Ledger.frame_repay h).1
  | seize ho hsign h => exact hw.storeObligation ho (Ledger.frame_seize h).1

theorem addressed_initPrivateObligation (hw : w.Addressed) {payer market key : Pubkey}
    (h : w.initPrivateObligation payer market key = .ok w') :
    ∀ x s, w'.privates x = some s →
      x = .privateObligation s.account.lendingMarket s.account.owner := by
  simp only [initPrivateObligation, bind_eq_ok, signer_eq_ok, seeds_eq_ok, exists_const,
    pure_eq_ok] at h
  obtain ⟨-, -, -, hkey, s, hs, rfl⟩ := h
  obtain ⟨howner, hmarket⟩ := PrivateState.initPrivateObligation_holder hs
  apply forall_store hw.privates
  rw [howner, hmarket]
  exact hkey

theorem settleSeizure_privates {a : LiquidationAccounts} {s : Ledger.Seizure}
    (h : w.settleSeizure a s = .ok w') : w'.privates = w.privates := by
  simp only [settleSeizure, bind_eq_ok, pure_eq_ok] at h
  obtain ⟨-, -, -, -, rfl⟩ := h
  rfl

/-- Seven instructions touch a private obligation; one of them creates it. -/
theorem addressed_privates (hw : w.Addressed) {mxe : Mxe} {ix : Instruction}
    (h : w.exec mxe ix = .ok w') : ∀ x s, w'.privates x = some s →
      x = .privateObligation s.account.lendingMarket s.account.owner := by
  cases ix with
  | initPrivateObligation => exact addressed_initPrivateObligation hw h
  | privateDepositCollateral =>
      simp only [exec, World.privateDepositCollateral, bind_eq_ok, pure_eq_ok, Prod.exists] at h
      obtain ⟨-, -, -, -, s, hs, -, -, -, -, -, -, s', hs', rfl⟩ := h
      exact hw.storePrivate (privateOf_ok hs).1
        (PrivateState.sameHolder_privateDepositCollateral hs')
  | privateBorrow =>
      simp only [exec, World.privateBorrow, bind_eq_ok, pure_eq_ok, Prod.exists] at h
      obtain ⟨-, -, -, -, s, hs, -, -, -, -, -, s', hs', rfl⟩ := h
      exact hw.storePrivate (privateOf_ok hs).1 (PrivateState.sameHolder_privateBorrow hs')
  | privateCheckLiquidatable =>
      simp only [exec, World.privateCheckLiquidatable, bind_eq_ok, pure_eq_ok] at h
      obtain ⟨-, -, -, -, s, hs, s', hs', rfl⟩ := h
      exact hw.storePrivate (privateOf_ok hs).1
        (PrivateState.sameHolder_privateCheckLiquidatable hs')
  | executePrivateLiquidation =>
      simp only [exec, World.executePrivateLiquidation, bind_eq_ok, pure_eq_ok, Prod.exists] at h
      obtain ⟨_, _, -, s, hs, _, -, seizure, -, v, hsettle, rfl⟩ := h
      have hv : v.privates = w.privates := settleSeizure_privates hsettle
      show ∀ x t, store v.privates _ s.clearFlag x = some t → _
      rw [hv]
      exact hw.storePrivate (privateOf_ok hs).1 ⟨rfl, rfl⟩
  | executeComputation =>
      simp only [exec, World.executeComputation, bind_eq_ok, load_eq_ok, pure_eq_ok] at h
      obtain ⟨s, hs, rfl⟩ := h
      exact hw.storePrivate hs (PrivateState.sameHolder_execute _ s _ _)
  | callback =>
      simp only [exec, World.callback, bind_eq_ok, load_eq_ok, pure_eq_ok] at h
      obtain ⟨s, hs, rfl⟩ := h
      exact hw.storePrivate hs (PrivateState.sameHolder_deliver s _)
  | abortComputation =>
      simp only [exec, World.abortComputation, bind_eq_ok, load_eq_ok, pure_eq_ok] at h
      obtain ⟨s, hs, rfl⟩ := h
      exact hw.storePrivate hs (PrivateState.sameHolder_abort s _ _)
  | _ =>
      have hsame : w'.privates = w.privates := by
        repeat (obtain ⟨_, -, h⟩ := bind_eq_ok.mp h)
        cases h
        rfl
      rw [hsame]
      exact hw.privates

theorem addressed_run (mxe : Mxe) (clock : Clock) (ixs : List Instruction) :
    (ixs.foldl (tx mxe) (genesis clock)).Addressed := by
  apply run_invariant ixs
  · exact ⟨fun _ _ h => (by cases h), fun _ _ h => (by cases h)⟩
  · intro ix _ w w' hw h
    exact ⟨addressed_obligations hw (exec_step h), addressed_privates hw h⟩

/-! ## Whose position a private liquidation seizes -/

/-- In every reachable world, a private liquidation that succeeds touches the position of the owner
whose flag allowed it exactly when the obligation it was given is that owner's. -/
theorem owner_eq_iff_of_executePrivateLiquidation (mxe : Mxe) (clock : Clock)
    (ixs : List Instruction) (w w' : World) (a : PrivateLiquidationAccounts) (repayAmount : U64)
    (o : Obligation) (s : PrivateState) (hrun : ixs.foldl (tx mxe) (genesis clock) = w)
    (ho : w.obligations a.obligation = some o) (hs : w.privates a.privateObligation = some s)
    (h : w.executePrivateLiquidation a repayAmount = .ok w') :
    o.owner = s.account.owner ↔
      a.obligation = .obligation a.lendingMarket a.obligationOwner := by
  have hw : w.Addressed := hrun ▸ addressed_run mxe clock ixs
  simp only [executePrivateLiquidation, bind_eq_ok, Prod.exists] at h
  obtain ⟨m, o', hcheck, s', hprivate, -⟩ := h
  -- the obligation is one of the market, the private obligation is the named owner's
  obtain ⟨-, ho', hmarket, -, -, -⟩ := LiquidationAccounts.check_ok hcheck
  obtain ⟨-, hkey⟩ := privateOf_ok hprivate
  obtain rfl : o' = o := Option.some.inj (ho'.symm.trans ho)
  have haddress := hw.obligations _ _ ho
  have hflagged := (hw.privates _ _ hs).symm.trans hkey
  rw [Pubkey.privateObligation.injEq] at hflagged
  rw [haddress, hmarket, hflagged.2, Pubkey.obligation.injEq]
  exact ⟨fun he => ⟨rfl, he⟩, fun he => he.2⟩

section Flagged

/-- A user borrows 100 privately, and somebody has the position checked at a collateral price of
zero. -/
def flag (n : Nat) : List Instruction :=
  let key := Pubkey.privateObligation poolMarket (.key n)
  [.initPrivateObligation (.key n) poolMarket key, .executeComputation key 0 1, .callback key 0,
    .privateBorrow { debtOf n with privateObligation := key } 100 (plainAmount 100),
    .executeComputation key 0 2, .callback key 0,
    .privateCheckLiquidatable (.key 3) poolMarket (.key n) key 10000 0 100 10000,
    .executeComputation key 0 3, .callback key 0]

/-- Two users with debts, the second one flagged, and a third with dollars to liquidate with. -/
def flaggedRun : List Instruction :=
  openPool ++ join 1 ++ [.borrow (debtOf 1) 1000] ++ join 2 ++ flag 2 ++
    [.openTokenAccount (.key 103) usd (.key 3),
      .openTokenAccount (.key 203) (.collateralMint usdReserve) (.key 3),
      .mintTokens usd (.key 103) (.key 1) 1000]

/-- The second user's flag, and the obligation of the `n`-th. -/
def seizeFrom (n : Nat) : PrivateLiquidationAccounts where
  liquidator := .key 3
  lendingMarket := poolMarket
  obligation := .obligation poolMarket (.key n)
  repayReserve := usdReserve
  repayReserveMint := usd
  repayLiquidityVault := .liquidityVault usdReserve
  liquidatorRepayTokenAccount := .key 103
  withdrawReserve := usdReserve
  withdrawCollateralMint := .collateralMint usdReserve
  collateralSupplyVault := .collateralSupply usdReserve
  liquidatorCollateralAccount := .key 203
  obligationOwner := .key 2
  privateObligation := .privateObligation poolMarket (.key 2)

theorem exists_ok_of_isOk {α : Type} {x : Result α} (h : x.isOk = true) : ∃ a, x = .ok a := by
  cases x with
  | ok a => exact ⟨a, rfl⟩
  | error e => cases h

def flaggedWorld : World := flaggedRun.foldl (tx plainMxe) (genesis ⟨0, 0⟩)

/-- Both obligations can be seized from with the second user's flag. -/
theorem exists_seizeFrom (n : Nat) (hn : n ∈ [1, 2]) : ∃ w' o s,
    flaggedWorld.executePrivateLiquidation (seizeFrom n) 10 = .ok w' ∧
      flaggedWorld.obligations (seizeFrom n).obligation = some o ∧ o.owner = .key n ∧
      flaggedWorld.privates (seizeFrom n).privateObligation = some s ∧
      s.account.owner = .key 2 := by
  have hok : ∀ n ∈ [1, 2],
      (flaggedWorld.executePrivateLiquidation (seizeFrom n) 10).isOk = true := by
    decide +kernel
  have howner : ∀ n ∈ [1, 2], (flaggedWorld.obligations (seizeFrom n).obligation).any
      (fun o => o.owner = .key n) = true := by decide +kernel
  have hflag : ∀ n ∈ [1, 2], (flaggedWorld.privates (seizeFrom n).privateObligation).any
      (fun s => s.account.owner = .key 2) = true := by decide +kernel
  obtain ⟨w', hw'⟩ := exists_ok_of_isOk (hok n hn)
  obtain ⟨o, ho, hon⟩ := (Option.any_eq_true _ _).mp (howner n hn)
  obtain ⟨s, hs, hsn⟩ := (Option.any_eq_true _ _).mp (hflag n hn)
  exact ⟨w', o, s, hw', ho, of_decide_eq_true hon, hs, of_decide_eq_true hsn⟩

theorem owner_eq_iff_of_executePrivateLiquidation_flagged : ∃ w' o s,
    flaggedWorld.executePrivateLiquidation (seizeFrom 2) 10 = .ok w' ∧
      flaggedWorld.obligations (seizeFrom 2).obligation = some o ∧
      flaggedWorld.privates (seizeFrom 2).privateObligation = some s ∧
      o.owner = s.account.owner := by
  obtain ⟨w', o, s, hexec, ho, -, hs, -⟩ := exists_seizeFrom 2 (by decide)
  exact ⟨w', o, s, hexec, ho, hs, (owner_eq_iff_of_executePrivateLiquidation plainMxe ⟨0, 0⟩
    flaggedRun flaggedWorld w' (seizeFrom 2) 10 o s rfl ho hs hexec).mpr rfl⟩

/-- The second user's flag pays for a seizure from the first. -/
theorem not_forall_owner_of_executePrivateLiquidation :
    ¬ ∀ (mxe : Mxe) (clock : Clock) (ixs : List Instruction) (w w' : World)
        (a : PrivateLiquidationAccounts) (repayAmount : U64) (o : Obligation) (s : PrivateState),
        ixs.foldl (tx mxe) (genesis clock) = w → w.obligations a.obligation = some o →
        w.privates a.privateObligation = some s →
        w.executePrivateLiquidation a repayAmount = .ok w' → o.owner = s.account.owner := by
  intro hall
  obtain ⟨w', o, s, hexec, ho, hone, hs, htwo⟩ := exists_seizeFrom 1 (by decide)
  have hcon := hall plainMxe ⟨0, 0⟩ flaggedRun flaggedWorld w' (seizeFrom 1) 10 o s rfl ho hs hexec
  rw [hone, htwo] at hcon
  exact absurd hcon (by decide)

end Flagged

end World

end VeilVault
