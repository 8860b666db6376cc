/-
# VeilVault.World.Isolation — markets do not touch one another.

A market is its own account, and everything at an address derived from it: its reserves, its users'
obligations and private obligations, and the token accounts and mints it is the authority of.  An
instruction `Concerns` the market it names; the two events of the computation network name a private
obligation instead.  Whatever is run that does not concern a market leaves all of it alone, except
that anybody may pay into its vaults and burn its cTokens (`untouched_run`).
-/
import VeilVault.World.Accounts
import VeilVault.World.Links

namespace VeilVault

open Kit

/-- The instruction names the market, or delivers to a private obligation of it. -/
def Instruction.Concerns (M : Pubkey) : Instruction → Prop
  | .executeComputation key _ _ => ∃ user, key = .privateObligation M user
  | .callback key _ => ∃ user, key = .privateObligation M user
  | .abortComputation key _ _ => ∃ user, key = .privateObligation M user
  | ix => ix.lendingMarket = some M

theorem Instruction.concerns_of_lendingMarket {ix : Instruction} {M : Pubkey}
    (h : ix.lendingMarket = some M) : ix.Concerns M := by
  cases ix with
  | executeComputation | callback | abortComputation => cases h
  | _ => exact h

/-- A market that signs a token call is the one the instruction names. -/
theorem Instruction.lendingMarket_of_signingMarket {ix : Instruction} {M : Pubkey}
    (h : ix.signingMarket = some M) : ix.lendingMarket = some M := by
  cases ix with
  | deposit | withdraw | withdrawCollateral | borrow | privateBorrow | liquidate
  | executePrivateLiquidation => exact h
  | _ => cases h

namespace World

variable {mxe : Mxe} {w w' v : World} {ix : Instruction} {M k x : Pubkey}

/-! ## The market behind an address -/

theorem ReserveChange.market {r r' : Reserve} (h : w.ReserveChange ix k r r')
    (hw : w.Linked) (hr : w.reserves k = some r) :
    ∃ M mint m, ix.lendingMarket = some M ∧ k = .reserve M mint ∧ w.market M = .ok m := by
  have hkey := (hw.wellFormed k r hr).key
  cases h with
  | @config M owner mint m config r' hix hm hk h =>
      exact ⟨M, mint, m, by rw [hix]; rfl, hk, market_of_owned hm⟩
  | refresh hix hm _ => exact ⟨_, _, _, hix ▸ rfl, hkey, hm⟩
  | deposit hmarket hin _ | withdraw hmarket hin _ =>
      obtain ⟨mint, hk⟩ := hin.key
      exact ⟨_, mint, _, hmarket, hk, hin.market⟩
  | borrow hown _ _ _ | repay hown _ =>
      obtain ⟨mint, hk⟩ := hown.key
      exact ⟨_, mint, _, hown.lendingMarket, hk, hown.market⟩
  | @seize _ _ M repayKey withdrawKey _ _ _ _ _ hseize hk _ _ =>
      have hM : r.lendingMarket = M := by
        rcases List.mem_pair.mp hk with rfl | rfl
        · obtain ⟨q, hq, hM⟩ := hseize.repayIn
          cases hq.symm.trans hr
          exact hM
        · obtain ⟨q, hq, hM⟩ := hseize.withdrawIn
          cases hq.symm.trans hr
          exact hM
      rw [hM] at hkey
      exact ⟨_, _, _, hseize.lendingMarket, hkey, hseize.market⟩

theorem ObligationChange.market {o o' : Obligation} (h : w.ObligationChange ix x o o')
    (ha : w.Addressed) (ho : w.obligations x = some o) :
    ∃ user, ix.lendingMarket = some o.lendingMarket ∧ x = .obligation o.lendingMarket user := by
  have haddress := ha.obligations x o ho
  have hmarket {M user k : Pubkey} {m : LendingMarket} {r : Reserve}
      (hown : w.Own ix x M user k m r) : ix.lendingMarket = some o.lendingMarket := by
    have hx := haddress.symm.trans hown.obligation
    rw [Pubkey.obligation.injEq] at hx
    rw [hx.1]
    exact hown.lendingMarket
  refine ⟨o.owner, ?_, haddress⟩
  cases h with
  | refresh hix => exact hix ▸ rfl
  | deposit hown | withdraw hown | borrow hown | repay hown => exact hmarket hown
  | seize hseize =>
      rw [hseize.obligationIn]
      exact hseize.lendingMarket

/-- An instruction on a private obligation concerns the market its address names. -/
theorem concerns_of_privateEvent {ev : PrivateEvent} {user : Pubkey}
    (h : w.exec mxe ix = .ok w')
    (hix : ix.privateEvent = some (.privateObligation M user, ev)) : ix.Concerns M := by
  cases ix with
  | initPrivateObligation payer market key =>
      cases hix
      simp only [exec, World.initPrivateObligation, bind_eq_ok, seeds_eq_ok, exists_const] at h
      obtain ⟨-, -, -, -, hkey, -⟩ := h
      rw [Pubkey.privateObligation.injEq] at hkey
      exact congrArg some hkey.1.symm
  | privateDepositCollateral a amount encrypted =>
      simp only [Instruction.privateEvent, Option.some.injEq, Prod.mk.injEq] at hix
      simp only [exec, World.privateDepositCollateral, bind_eq_ok, Prod.exists] at h
      obtain ⟨-, -, -, -, s, hs, -⟩ := h
      have hkey := hix.1.symm.trans (privateOf_ok hs).2
      rw [Pubkey.privateObligation.injEq] at hkey
      exact congrArg some hkey.1.symm
  | privateBorrow a amount encrypted =>
      simp only [Instruction.privateEvent, Option.some.injEq, Prod.mk.injEq] at hix
      simp only [exec, World.privateBorrow, bind_eq_ok, Prod.exists] at h
      obtain ⟨-, -, -, -, s, hs, -⟩ := h
      have hkey := hix.1.symm.trans (privateOf_ok hs).2
      rw [Pubkey.privateObligation.injEq] at hkey
      exact congrArg some hkey.1.symm
  | privateCheckLiquidatable liquidator market owner key rate cprice bprice ltv =>
      simp only [Instruction.privateEvent, Option.some.injEq, Prod.mk.injEq] at hix
      simp only [exec, World.privateCheckLiquidatable, bind_eq_ok] at h
      obtain ⟨-, -, -, -, s, hs, -⟩ := h
      have hkey := hix.1.symm.trans (privateOf_ok hs).2
      rw [Pubkey.privateObligation.injEq] at hkey
      exact congrArg some hkey.1.symm
  | executePrivateLiquidation a amount =>
      simp only [Instruction.privateEvent, Option.some.injEq, Prod.mk.injEq] at hix
      simp only [exec, World.executePrivateLiquidation, bind_eq_ok, Prod.exists] at h
      obtain ⟨_, _, -, s, hs, -⟩ := h
      have hkey := hix.1.symm.trans (privateOf_ok hs).2
      rw [Pubkey.privateObligation.injEq] at hkey
      exact congrArg some hkey.1.symm
  | executeComputation key i fresh =>
      cases hix
      exact ⟨user, rfl⟩
  | callback key i =>
      cases hix
      exact ⟨user, rfl⟩
  | abortComputation key executed i =>
      cases hix
      exact ⟨user, rfl⟩
  | _ => cases hix

/-! ## One instruction -/

/-- Nothing of the market `M` changed, except that its vaults may have been paid into and its
cTokens burnt. -/
structure Untouched (M : Pubkey) (w w' : World) : Prop where
  market : w'.markets M = w.markets M
  reserves : ∀ mint, w'.reserves (.reserve M mint) = w.reserves (.reserve M mint)
  obligations : ∀ user, w'.obligations (.obligation M user) = w.obligations (.obligation M user)
  privates : ∀ user,
    w'.privates (.privateObligation M user) = w.privates (.privateObligation M user)
  tokens : w.tokens.Spared M w'.tokens

theorem Untouched.refl (M : Pubkey) (w : World) : Untouched M w w :=
  ⟨rfl, fun _ => rfl, fun _ => rfl, fun _ => rfl, TokenLedger.spared_refl _ _⟩

theorem Untouched.trans (h : Untouched M w w') (h' : Untouched M w' v) : Untouched M w v where
  market := h'.market.trans h.market
  reserves mint := (h'.reserves mint).trans (h.reserves mint)
  obligations user := (h'.obligations user).trans (h.obligations user)
  privates user := (h'.privates user).trans (h.privates user)
  tokens := h.tokens.trans h'.tokens

/-- A market does not sign the calls of an instruction that does not name it. -/
theorem not_signed (hM : M.isWallet = false) (hno : ix.lendingMarket ≠ some M)
    (h : w.exec mxe ix = .ok w') : ¬ ix.signed M := by
  rintro (hsigner | hmarket)
  · have hwallet := exec_signer h hsigner
    rw [hM] at hwallet
    cases hwallet
  · exact hno (Instruction.lendingMarket_of_signingMarket hmarket)

theorem exec_market_of_ne (hno : ix.lendingMarket ≠ some M) (h : w.exec mxe ix = .ok w') :
    w'.markets M = w.markets M := by
  rcases exec_market h M with hsame | ⟨owner, fee, rfl, -⟩ | ⟨m, m', -, hchange, -⟩
  · exact hsame
  · exact absurd rfl hno
  · cases hchange with
    | pause hix => exact absurd (by rw [hix]; rfl) hno
    | authority hix => exact absurd (by rw [hix]; rfl) hno

theorem exec_reserve_of_ne (hw : w.Linked) (hno : ix.lendingMarket ≠ some M)
    (h : w.exec mxe ix = .ok w') (mint : Pubkey) :
    w'.reserves (.reserve M mint) = w.reserves (.reserve M mint) := by
  rcases exec_reserve h (.reserve M mint) with
    hsame | ⟨r, ⟨a, config, m, rfl, -, -, -, hkey, -⟩, -⟩ | ⟨r, r', hr, hchange, -⟩
  · exact hsame
  · rw [Pubkey.reserve.injEq] at hkey
    exact absurd (congrArg some hkey.1.symm) hno
  · obtain ⟨M', mint', m, hM, hkey, -⟩ := hchange.market hw hr
    rw [Pubkey.reserve.injEq] at hkey
    exact absurd (hkey.1 ▸ hM) hno

theorem exec_obligation_of_ne (ha : w.Addressed) (hno : ix.lendingMarket ≠ some M)
    (h : w.exec mxe ix = .ok w') (user : Pubkey) :
    w'.obligations (.obligation M user) = w.obligations (.obligation M user) := by
  rcases exec_obligation h with hsame | ⟨x, owner, M', m, hM, -, -, hx, -, hstore⟩ |
    ⟨x, o, o', ho, hchange, hstore⟩
  · rw [hsame]
  · rw [hstore]
    apply store_of_ne
    rintro rfl
    rw [Pubkey.obligation.injEq] at hx
    exact hno (hx.1 ▸ hM)
  · rw [hstore]
    apply store_of_ne
    rintro rfl
    obtain ⟨owner, hM, hx⟩ := hchange.market ha ho
    rw [Pubkey.obligation.injEq] at hx
    exact hno (hx.1 ▸ hM)

theorem exec_private_of_not_concerns (hno : ¬ ix.Concerns M) (h : w.exec mxe ix = .ok w')
    (user : Pubkey) :
    w'.privates (.privateObligation M user) = w.privates (.privateObligation M user) := by
  cases hix : ix.privateEvent with
  | none => rw [exec_event_none h hix]
  | some p =>
      obtain ⟨key, ev⟩ := p
      obtain ⟨s, -, hstore⟩ := exec_event h hix
      rw [hstore]
      apply store_of_ne
      rintro rfl
      exact hno (concerns_of_privateEvent h hix)

/-- An instruction that does not concern a market does nothing to it. -/
theorem exec_untouched (hw : w.Linked) (ha : w.Addressed) (hM : M.isWallet = false)
    (hno : ¬ ix.Concerns M) (h : w.exec mxe ix = .ok w') : Untouched M w w' := by
  have hnot : ix.lendingMarket ≠ some M := fun he =>
    hno (Instruction.concerns_of_lendingMarket he)
  exact ⟨exec_market_of_ne hnot h, exec_reserve_of_ne hw hnot h,
    exec_obligation_of_ne ha hnot h, exec_private_of_not_concerns hno h,
    (exec_calls h).spared (not_signed hM hnot h)⟩

/-! ## Runs -/

/-- Whatever is run that does not concern a market leaves it, its reserves, its users' positions and
its tokens alone. -/
theorem untouched_run (mxe : Mxe) (clock : Clock) (ixs later : List Instruction) (owner : Pubkey)
    (hno : ∀ ix ∈ later, ¬ ix.Concerns (.lendingMarket owner)) :
    Untouched (.lendingMarket owner) (ixs.foldl (tx mxe) (genesis clock))
      (later.foldl (tx mxe) (ixs.foldl (tx mxe) (genesis clock))) := by
  have hw := linked_run mxe clock ixs
  have ha := addressed_run mxe clock ixs
  generalize ixs.foldl (tx mxe) (genesis clock) = w at hw ha
  let Inv : World → Prop := fun v => v.Linked ∧ v.Addressed ∧ Untouched (.lendingMarket owner) w v
  have hstart : Inv w := ⟨hw, ha, .refl _ w⟩
  have hrun : Inv (later.foldl (tx mxe) w) := by
    apply run_invariant later hstart
    intro ix hix v v' hv h
    exact ⟨hv.1.exec hv.2.1 h, hv.2.1.exec h,
      hv.2.2.trans (exec_untouched hv.1 hv.2.1 rfl (hno ix hix) h)⟩
  exact hrun.2.2

/-- A second market opens beside the pool, and a dollar is paid into the pool's vault. -/
def elsewhere : List Instruction :=
  [.initializeMarket (.key 5) (.lendingMarket (.key 5)) 0,
    .initObligation (.key 1) (.lendingMarket (.key 5))
      (.obligation (.lendingMarket (.key 5)) (.key 1)),
    .transferTokens (.key 101) usd (.liquidityVault usdReserve) (.key 1) 1]

theorem untouched_run_elsewhere :
    Untouched poolMarket ((openPool ++ join 1).foldl (tx plainMxe) (genesis ⟨0, 0⟩))
      (elsewhere.foldl (tx plainMxe) ((openPool ++ join 1).foldl (tx plainMxe) (genesis ⟨0, 0⟩))) :=
  untouched_run plainMxe ⟨0, 0⟩ (openPool ++ join 1) elsewhere (.key 1) (by
    intro ix hix
    simp only [elsewhere, List.mem_cons, List.not_mem_nil, or_false] at hix
    rcases hix with rfl | rfl | rfl
    · show ¬ some (Pubkey.lendingMarket (.key 5)) = _
      decide
    · show ¬ some (Pubkey.lendingMarket (.key 5)) = _
      decide
    · exact nofun)

end World

end VeilVault
