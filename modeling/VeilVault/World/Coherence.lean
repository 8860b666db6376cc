/-
# VeilVault.World.Coherence — liquidations after one refresh.

An obligation is refreshed, and then liquidated again and again without another refresh.  Each call
is admitted on the sums of the cached values; they stay those of a refresh, up to one atomic unit
per slot, as long as the calls find their reserves accrued to the slot and take at most one unit
from each slot, or a deposit whole.
-/
import VeilVault.Ledger.Coherence
import VeilVault.World.Holders

namespace VeilVault

open Kit Kit.Outcome

namespace World

variable {mxe : Mxe} {w w' : World}

/-- A call of `liquidate`. -/
def liquidation (p : LiquidationAccounts × U64) : Instruction := .liquidate p.1 p.2

/-- What `health_factor` reads of the obligation is what a refresh would write, up to one atomic
unit per slot. -/
def Coherent (x : Pubkey) (w : World) : Prop :=
  ∀ o, w.obligations x = some o → o.Coherent (quotes w.reserves)

/-- A successful call finds its two reserves accrued to this slot, or with nothing to accrue, and
what it takes from a counted slot of the obligation is worth at most one unit, or all there is. -/
def TakesUnit (mxe : Mxe) (x : Pubkey) (w : World) (p : LiquidationAccounts × U64) : Prop :=
  (w.exec mxe (liquidation p)).isOk = true →
    Ledger.Quiet w.clock.slot w.reserves p.1.repayReserve ∧
    Ledger.Quiet w.clock.slot w.reserves p.1.withdrawReserve ∧
    (p.1.obligation = x → ∀ o ∈ w.obligations x,
      Ledger.RepaysUnit (quotes w.reserves) o p.1.repayReserve p.2 ∧
        Ledger.SeizesUnit w.reserves o p.1.repayReserve p.1.withdrawReserve p.2)

instance decidableTakesUnit (mxe : Mxe) (x : Pubkey) (w : World) (p : LiquidationAccounts × U64) :
    Decidable (TakesUnit mxe x w p) :=
  inferInstanceAs (Decidable (_ → _ ∧ _ ∧ (_ → ∀ o ∈ w.obligations x, _)))

theorem coherentSlots_liquidate {x : Pubkey} {p : LiquidationAccounts × U64}
    (h : w.exec mxe (liquidation p) = .ok w') (htakes : TakesUnit mxe x w p)
    (hslots : ∀ o, w.obligations x = some o → o.CoherentSlots (quotes w.reserves)) :
    ∀ o, w'.obligations x = some o → o.CoherentSlots (quotes w'.reserves) := by
  obtain ⟨hrepay, hwithdraw, hunit⟩ := htakes (by rw [h]; rfl)
  simp only [liquidation, exec, World.liquidate, bind_eq_ok, Prod.exists] at h
  obtain ⟨m, o, hcheck, s, hled, hsettle⟩ := h
  obtain ⟨-, ho, -⟩ := LiquidationAccounts.check_ok hcheck
  obtain ⟨r, r₁, q, q₁, i, j, o₁, hs⟩ := Ledger.seize_parts (Ledger.liquidate_ok hled)
  intro o' ho'
  rw [settleSeizure_reserves hsettle]
  rw [settleSeizure_obligations hsettle] at ho'
  by_cases hx : p.1.obligation = x
  · subst hx
    rw [store_self] at ho'
    cases ho'
    obtain ⟨hrepays, hseizes⟩ := hunit rfl o ho
    exact hs.coherentSlots hrepay hwithdraw hrepays hseizes (hslots o ho)
  · rw [store_of_ne _ _ (Ne.symm hx)] at ho'
    rw [hs.quotes_eq hrepay hwithdraw]
    exact hslots o' ho'

/-- After one refresh of an obligation, liquidations that take at most a unit from each slot leave
its cached sums those of a refresh, up to one unit per slot. -/
theorem coherent_run (mxe : Mxe) (w₀ w : World) (market x : Pubkey) (accounts : List Pubkey)
    (calls : List (LiquidationAccounts × U64))
    (hrefresh : w₀.exec mxe (.refreshObligation market x accounts) = .ok w)
    (h : EachStep (fun w p => w.tx mxe (liquidation p)) (TakesUnit mxe x) w calls) :
    Always (fun w p => w.tx mxe (liquidation p)) (Coherent x) w calls := by
  let Inv : World → Prop := fun w =>
    ∀ o, w.obligations x = some o → o.CoherentSlots (quotes w.reserves)
  have hstart : Inv w := by
    simp only [exec, World.refreshObligation, bind_eq_ok, pure_eq_ok] at hrefresh
    obtain ⟨-, -, o, -, o', hled, rfl⟩ := hrefresh
    intro p hp
    have hp : store w₀.obligations x o' x = some p := hp
    rw [store_self] at hp
    cases hp
    exact (Ledger.refreshed hled).coherentSlots
  have hkeep : ∀ w p, Inv w → TakesUnit mxe x w p → Inv (w.tx mxe (liquidation p)) := by
    intro w p hinv htakes
    exact attemptStep_invariant hinv fun w' hex => coherentSlots_liquidate hex htakes hinv
  have hrun : Always (fun w p => w.tx mxe (liquidation p)) Inv w calls :=
    always_of_eachStep hkeep calls w hstart h
  exact hrun.imp fun w hinv o ho => (hinv o ho).coherent

/-! ## A user who owes 1000 -/

/-- The first user borrows 1000; the third has dollars to liquidate with. -/
def owingRun : List Instruction :=
  openPool ++ join 1 ++
    [.borrow (debtOf 1) 1000, .openTokenAccount (.key 103) usd (.key 3),
      .openTokenAccount (.key 203) (.collateralMint usdReserve) (.key 3),
      .mintTokens usd (.key 103) (.key 1) 1000]

def owingWorld : World := owingRun.foldl (tx plainMxe) (genesis ⟨0, 0⟩)

def refreshedWorld : World := owingWorld.tx plainMxe (refreshUser 1)

theorem exec_refreshUser : owingWorld.exec plainMxe (refreshUser 1) = .ok refreshedWorld := by
  have hok : (owingWorld.exec plainMxe (refreshUser 1)).isOk = true := by decide +kernel
  obtain ⟨w, hw⟩ := exists_ok_of_isOk hok
  rw [refreshedWorld, World.tx, attemptStep_ok hw, hw]

def refreshSecond : Instruction :=
  .refreshObligation poolMarket (.obligation poolMarket (.key 2)) [usdReserve, eurReserve]

/-- The second user's euros in the pool, and a debt in each reserve; the third user has both. -/
def twoSlotRun : List Instruction :=
  openPool ++ join 1 ++ join 2 ++ openSecond ++
    [.depositCollateral { collateralOf 2 with
        reserve := eurReserve, reserveMint := eur, collateralMint := .collateralMint eurReserve,
        userCollateralAccount := .key 402,
        collateralSupplyVault := .collateralSupply eurReserve } 500,
      .refreshReserve poolMarket eurReserve oracle (some (oneDollar 0)),
      refreshSecond, .borrow (debtOf 2) 500,
      .borrow { debtOf 2 with
        reserve := eurReserve, reserveMint := eur, liquidityVault := .liquidityVault eurReserve,
        userTokenAccount := .key 302 } 200,
      .openTokenAccount (.key 103) usd (.key 3),
      .openTokenAccount (.key 203) (.collateralMint usdReserve) (.key 3),
      .mintTokens usd (.key 103) (.key 1) 1000, .openTokenAccount (.key 303) eur (.key 3),
      .openTokenAccount (.key 403) (.collateralMint eurReserve) (.key 3),
      .mintTokens eur (.key 303) (.key 1) 1000]

def twoSlotWorld : World := twoSlotRun.foldl (tx plainMxe) (genesis ⟨0, 0⟩)

/-- One unit of each debt, for collateral of the same reserve. -/
def unitCalls : List (LiquidationAccounts × U64) :=
  [((seizeFrom 2).toLiquidationAccounts, 1),
    ({ (seizeFrom 2).toLiquidationAccounts with
        repayReserve := eurReserve, repayReserveMint := eur
        repayLiquidityVault := .liquidityVault eurReserve, liquidatorRepayTokenAccount := .key 303
        withdrawReserve := eurReserve, withdrawCollateralMint := .collateralMint eurReserve
        collateralSupplyVault := .collateralSupply eurReserve
        liquidatorCollateralAccount := .key 403 }, 1)]

/-- Two liquidations of one unit, on two slots, both accepted, leave the caches within a unit. -/
theorem coherent_run_units :
    EachStep (fun w p => w.tx plainMxe (liquidation p))
      (fun w p => (w.exec plainMxe (liquidation p)).isOk = true)
      (twoSlotWorld.tx plainMxe refreshSecond) unitCalls ∧
    Always (fun w p => w.tx plainMxe (liquidation p)) (Coherent (.obligation poolMarket (.key 2)))
      (twoSlotWorld.tx plainMxe refreshSecond) unitCalls := by
  refine ⟨by decide +kernel, ?_⟩
  have hok : (twoSlotWorld.exec plainMxe refreshSecond).isOk = true := by decide +kernel
  obtain ⟨w, hw⟩ := exists_ok_of_isOk hok
  have hrefresh : twoSlotWorld.exec plainMxe refreshSecond =
      .ok (twoSlotWorld.tx plainMxe refreshSecond) := by
    rw [World.tx, attemptStep_ok hw, hw]
  exact coherent_run plainMxe twoSlotWorld _ poolMarket (.obligation poolMarket (.key 2))
    [usdReserve, eurReserve] unitCalls hrefresh (by decide +kernel)

def halvedWorld : World :=
  [((seizeFrom 1).toLiquidationAccounts, 500)].foldl
    (fun w p => w.tx plainMxe (liquidation p)) refreshedWorld

/-- A liquidator who takes half leaves the debt slot at twice what is owed. -/
theorem not_forall_coherent :
    ¬ ∀ (mxe : Mxe) (w₀ w : World) (market x : Pubkey) (accounts : List Pubkey)
        (calls : List (LiquidationAccounts × U64)),
        w₀.exec mxe (.refreshObligation market x accounts) = .ok w →
        Always (fun w p => w.tx mxe (liquidation p)) (Coherent x) w calls := by
  intro hall
  have hrun := hall plainMxe owingWorld refreshedWorld poolMarket
    (.obligation poolMarket (.key 1)) [usdReserve]
    [((seizeFrom 1).toLiquidationAccounts, 500)] exec_refreshUser
  have hlast : Coherent (.obligation poolMarket (.key 1)) halvedWorld := hrun.foldl
  have hstale : (halvedWorld.obligations (.obligation poolMarket (.key 1))).any (fun o =>
      ((o.readBorrows).map (·.worth (quotes halvedWorld.reserves))).sum +
          ((o.readBorrows).map (·.unit (quotes halvedWorld.reserves))).sum <
        ((o.readBorrows).map (·.marketValueSf.toNat)).sum) = true := by decide +kernel
  obtain ⟨o, ho, hlt⟩ := (Option.any_eq_true _ _).mp hstale
  exact absurd (hlast o ho).borrows_le (Nat.not_le_of_lt (of_decide_eq_true hlt))

end World

end VeilVault
