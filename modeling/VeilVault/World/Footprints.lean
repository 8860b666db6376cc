/-
# VeilVault.World.Footprints — the accounts an instruction depends on.

`reads` and `writes` list, for every instruction, the accounts it looks at and those it changes,
all of them among the accounts it is handed and, of the written ones, among those marked `mut`; the
clock is a location of its own.  Nothing else matters to the instruction and nothing else is changed
by it (`footprint_tx`).
-/
import VeilVault.Kit.TokenFootprints
import VeilVault.Ledger.Refreshing
import VeilVault.World.Links

namespace VeilVault

open Kit

/-! ## Locations -/

inductive Location
  | clock
  | account (key : Pubkey)
  deriving DecidableEq

namespace World

/-- The account at a key is the same in both worlds, whatever its type. -/
structure SameAccount (k : Pubkey) (w v : World) : Prop where
  market : w.markets k = v.markets k
  reserve : w.reserves k = v.reserves k
  obligation : w.obligations k = v.obligations k
  privateObligation : w.privates k = v.privates k
  token : Located.same k w.tokens v.tokens

def SameAt : Location → World → World → Prop
  | .clock, w, v => w.clock = v.clock
  | .account k, w, v => SameAccount k w v

theorem sameAt_equivalence (l : Location) : Equivalence (SameAt l) := by
  cases l with
  | clock => exact ⟨fun _ => rfl, Eq.symm, Eq.trans⟩
  | account k =>
      refine ⟨fun _ => ⟨rfl, rfl, rfl, rfl, same_refl k _⟩, fun h => ?_, fun h h' => ?_⟩
      · exact ⟨h.market.symm, h.reserve.symm, h.obligation.symm, h.privateObligation.symm,
          same_symm h.token⟩
      · exact ⟨h.market.trans h'.market, h.reserve.trans h'.reserve,
          h.obligation.trans h'.obligation, h.privateObligation.trans h'.privateObligation,
          same_trans h.token h'.token⟩

instance located : Located World Location where
  same := SameAt
  equivalence := sameAt_equivalence
  ext w v h := by
    have haccount (k : Pubkey) : SameAccount k w v := h (.account k)
    have hclock : w.clock = v.clock := h .clock
    have htokens : w.tokens = v.tokens := Located.ext _ _ fun k => (haccount k).token
    obtain ⟨clock, markets, reserves, obligations, privates, tokens⟩ := w
    obtain ⟨clock', markets', reserves', obligations', privates', tokens'⟩ := v
    obtain rfl : markets = markets' := funext fun k => (haccount k).market
    obtain rfl : reserves = reserves' := funext fun k => (haccount k).reserve
    obtain rfl : obligations = obligations' := funext fun k => (haccount k).obligation
    obtain rfl : privates = privates' := funext fun k => (haccount k).privateObligation
    cases hclock
    cases htokens
    rfl

/-- The accounts among the locations. -/
def keysOf (R : Set Location) : Set Pubkey := {k | .account k ∈ R}

/-- Two worlds followed side by side, part by part. -/
structure Abreast (R W : Set Location) (s t s' t' : World) : Prop where
  clock : .clock ∈ R → s'.clock = t'.clock
  clocks : .clock ∉ W → s'.clock = s.clock ∧ t'.clock = t.clock
  markets : Tandem (keysOf R) (keysOf W) s.markets t.markets s'.markets t'.markets
  reserves : Tandem (keysOf R) (keysOf W) s.reserves t.reserves s'.reserves t'.reserves
  obligations : Tandem (keysOf R) (keysOf W) s.obligations t.obligations s'.obligations
    t'.obligations
  privates : Tandem (keysOf R) (keysOf W) s.privates t.privates s'.privates t'.privates
  tokens : Tandem (keysOf R) (keysOf W) s.tokens t.tokens s'.tokens t'.tokens

variable {R W : Set Location} {s t s' t' : World} {k : Pubkey}

theorem abreast_of_sameOn (h : SameOn R s t) (W : Set Location) : Abreast R W s t s t where
  clock hclock := h .clock hclock
  clocks _ := ⟨rfl, rfl⟩
  markets := SameOn.tandem (fun k hk => (h (.account k) hk).market) _
  reserves := SameOn.tandem (fun k hk => (h (.account k) hk).reserve) _
  obligations := SameOn.tandem (fun k hk => (h (.account k) hk).obligation) _
  privates := SameOn.tandem (fun k hk => (h (.account k) hk).privateObligation) _
  tokens := SameOn.tandem (fun k hk => (h (.account k) hk).token) _

theorem Abreast.tandem (h : Abreast R W s t s' t') : Tandem R W s t s' t' where
  agree l hl := by
    cases l with
    | clock => exact h.clock hl
    | account k =>
        exact ⟨h.markets.agree k hl, h.reserves.agree k hl, h.obligations.agree k hl,
          h.privates.agree k hl, h.tokens.agree k hl⟩
  left l hl := by
    cases l with
    | clock => exact (h.clocks hl).1
    | account k =>
        exact ⟨h.markets.left k hl, h.reserves.left k hl, h.obligations.left k hl,
          h.privates.left k hl, h.tokens.left k hl⟩
  right l hl := by
    cases l with
    | clock => exact (h.clocks hl).2
    | account k =>
        exact ⟨h.markets.right k hl, h.reserves.right k hl, h.obligations.right k hl,
          h.privates.right k hl, h.tokens.right k hl⟩

end World

/-- Storing an account that may be written. -/
theorem tandem_store {α : Type} {P Q : Set Pubkey} {f g f' g' : Pubkey → Option α} {k : Pubkey}
    (h : Tandem P Q f g f' g') (hk : k ∈ Q) (a : α) :
    Tandem P Q f g (store f' k a) (store g' k a) where
  agree x hx := by
    have hsame : f' x = g' x := h.agree x hx
    show (if x = k then some a else f' x) = if x = k then some a else g' x
    rw [hsame]
  left x hx := by
    have hne : x ≠ k := fun he => hx (he ▸ hk)
    exact (store_of_ne f' a hne).trans (h.left x hx)
  right x hx := by
    have hne : x ≠ k := fun he => hx (he ▸ hk)
    exact (store_of_ne g' a hne).trans (h.right x hx)

/-- Loading from maps that agree at the key. -/
theorem load_congr {α : Type} {f g : Pubkey → Option α} {k : Pubkey} (h : f k = g k) :
    load f k = load g k := by
  rw [load, load, h]

/-! ## What an instruction reads and writes -/

/-- Of the accounts of a liquidation, those it changes. -/
def LiquidationAccounts.writes (a : LiquidationAccounts) : List Location :=
  [.account a.obligation, .account a.repayReserve, .account a.repayLiquidityVault,
    .account a.liquidatorRepayTokenAccount, .account a.withdrawReserve,
    .account a.collateralSupplyVault, .account a.liquidatorCollateralAccount]

namespace Instruction

/-- The locations an instruction changes, if it changes anything. -/
@[simp]
def writes : Instruction → List Location
  | .initializeMarket _ key _ | .setPause _ key _ | .updateMarketAuthority _ key _ => [.account key]
  | .addReserve a _ => [.account a.reserve, .account a.liquidityVault, .account a.feeVault,
      .account a.collateralMint, .account a.collateralSupplyVault]
  | .updateReserveConfig _ _ _ key _ | .refreshReserve _ key _ _ => [.account key]
  | .deposit a _ | .withdraw a _ => [.account a.reserve, .account a.liquidityVault,
      .account a.collateralMint, .account a.userTokenAccount, .account a.userCollateralAccount]
  | .initObligation _ _ key | .refreshObligation _ key _ => [.account key]
  | .depositCollateral a _ | .withdrawCollateral a _ => [.account a.obligation,
      .account a.userCollateralAccount, .account a.collateralSupplyVault]
  | .borrow a _ | .repay a _ => [.account a.obligation, .account a.reserve,
      .account a.liquidityVault, .account a.userTokenAccount]
  | .liquidate a _ => a.writes
  | .initPrivateObligation _ _ key => [.account key]
  | .privateDepositCollateral a _ _ => [.account a.privateObligation, .account a.obligation,
      .account a.userCollateralAccount, .account a.collateralSupplyVault]
  | .privateBorrow a _ _ => [.account a.privateObligation, .account a.obligation,
      .account a.reserve, .account a.liquidityVault, .account a.userTokenAccount]
  | .privateCheckLiquidatable _ _ _ key _ _ _ _ => [.account key]
  | .executePrivateLiquidation a _ => .account a.privateObligation :: a.writes
  | .advanceClock _ => [.clock]
  | .executeComputation key _ _ | .callback key _ | .abortComputation key _ _ => [.account key]
  | .openMint key _ | .openTokenAccount key _ _ => [.account key]
  | .mintTokens mint destination _ _ => [.account mint, .account destination]
  | .transferTokens source _ destination _ _ => [.account source, .account destination]
  | .burnTokens mint source _ _ => [.account mint, .account source]

/-- The locations an instruction looks at and leaves as they are. -/
@[simp]
def reads : Instruction → List Location
  | .initializeMarket .. | .setPause .. | .updateMarketAuthority .. => []
  | .addReserve a _ => [.clock, .account a.lendingMarket, .account a.reserveMint]
  | .updateReserveConfig _ lendingMarket reserveMint _ _ =>
      [.account lendingMarket, .account reserveMint]
  | .refreshReserve lendingMarket _ _ _ => [.clock, .account lendingMarket]
  | .deposit a _ | .withdraw a _ => [.clock, .account a.lendingMarket, .account a.reserveMint]
  | .initObligation _ lendingMarket _ => [.account lendingMarket]
  | .refreshObligation lendingMarket _ remainingAccounts =>
      .clock :: .account lendingMarket :: remainingAccounts.map .account
  | .depositCollateral a _ => [.account a.lendingMarket, .account a.reserve,
      .account a.reserveMint, .account a.collateralMint]
  | .withdrawCollateral a _ => [.clock, .account a.lendingMarket, .account a.reserve,
      .account a.reserveMint, .account a.collateralMint]
  | .borrow a _ | .repay a _ => [.clock, .account a.lendingMarket, .account a.reserveMint]
  | .liquidate a _ => [.clock, .account a.lendingMarket, .account a.repayReserveMint,
      .account a.withdrawCollateralMint]
  | .initPrivateObligation _ lendingMarket _ => [.account lendingMarket]
  | .privateDepositCollateral a _ _ => [.account a.lendingMarket, .account a.reserve,
      .account a.reserveMint, .account a.collateralMint]
  | .privateBorrow a _ _ => [.clock, .account a.lendingMarket, .account a.reserveMint]
  | .privateCheckLiquidatable _ lendingMarket _ _ _ _ _ _ => [.account lendingMarket]
  | .executePrivateLiquidation a _ => [.clock, .account a.lendingMarket,
      .account a.repayReserveMint, .account a.withdrawCollateralMint]
  | .advanceClock _ | .executeComputation .. | .callback .. | .abortComputation ..
  | .openMint .. => []
  | .openTokenAccount _ mint _ => [.account mint]
  | .mintTokens .. | .burnTokens .. => []
  | .transferTokens _ mint _ _ _ => [.account mint]

/-- All the locations that matter to an instruction. -/
def touched (ix : Instruction) : Set Location := {l | l ∈ ix.reads ++ ix.writes}

def written (ix : Instruction) : Set Location := {l | l ∈ ix.writes}

theorem written_subset_touched (ix : Instruction) : ix.written ⊆ ix.touched :=
  fun _ hl => List.mem_append_right _ hl

end Instruction

/-! ## Constraints -/

namespace World

section Checks

variable {s t : World}

theorem market_congr {k : Pubkey} (h : SameAccount k s t) : s.market k = t.market k := by
  rw [market, market, load_congr h.market]

theorem ownedMarket_congr {owner k : Pubkey} (h : SameAccount k s t) :
    s.ownedMarket owner k = t.ownedMarket owner k := by
  rw [ownedMarket, ownedMarket, load_congr h.market]

theorem reserveOf_congr {M k mint : Pubkey} (h : SameAccount k s t) (hmint : SameAccount mint s t) :
    s.reserveOf M k mint = t.reserveOf M k mint := by
  rw [reserveOf, reserveOf, load_congr h.reserve, load_congr hmint.token.2]

theorem reserveIn_congr {M k : Pubkey} (h : SameAccount k s t) :
    s.reserveIn M k = t.reserveIn M k := by
  rw [reserveIn, reserveIn, load_congr h.reserve]

theorem obligationOf_congr {M user k : Pubkey} (h : SameAccount k s t) :
    s.obligationOf M user k = t.obligationOf M user k := by
  rw [obligationOf, obligationOf, load_congr h.obligation]

theorem obligationIn_congr {M k : Pubkey} (h : SameAccount k s t) :
    s.obligationIn M k = t.obligationIn M k := by
  rw [obligationIn, obligationIn, load_congr h.obligation]

theorem privateOf_congr {M user k : Pubkey} (h : SameAccount k s t) :
    s.privateOf M user k = t.privateOf M user k := by
  rw [privateOf, privateOf, load_congr h.privateObligation]

theorem tokenAccount_congr {k mint : Pubkey} (h : SameAccount k s t) :
    s.tokenAccount k mint = t.tokenAccount k mint := by
  rw [tokenAccount, tokenAccount, load_congr h.token.1]

theorem ownTokenAccount_congr {k mint authority : Pubkey} (h : SameAccount k s t) :
    s.ownTokenAccount k mint authority = t.ownTokenAccount k mint authority := by
  rw [ownTokenAccount, ownTokenAccount, load_congr h.token.1]

end Checks

end World

section Accounts

open World

variable {s t : World}

theorem LiquidityAccounts.check_congr {a : LiquidityAccounts}
    (h : ∀ k ∈ [a.lendingMarket, a.reserve, a.reserveMint, a.userTokenAccount,
      a.userCollateralAccount], SameAccount k s t) : a.check s = a.check t := by
  simp only [List.forall_mem_cons, List.not_mem_nil, false_implies, implies_true, and_true] at h
  obtain ⟨hmarket, hreserve, hmint, huser, hcollateral⟩ := h
  rw [check, check, market_congr hmarket, reserveOf_congr hreserve hmint,
    ownTokenAccount_congr huser, ownTokenAccount_congr hcollateral]

theorem CollateralAccounts.check_congr {a : CollateralAccounts}
    (h : ∀ k ∈ [a.lendingMarket, a.reserve, a.reserveMint, a.userCollateralAccount, a.obligation],
      SameAccount k s t) : a.check s = a.check t := by
  simp only [List.forall_mem_cons, List.not_mem_nil, false_implies, implies_true, and_true] at h
  obtain ⟨hmarket, hreserve, hmint, huser, hobligation⟩ := h
  rw [check, check, market_congr hmarket, reserveOf_congr hreserve hmint,
    ownTokenAccount_congr huser, obligationOf_congr hobligation]

theorem DebtAccounts.check_congr {a : DebtAccounts}
    (h : ∀ k ∈ [a.lendingMarket, a.reserve, a.reserveMint, a.userTokenAccount, a.obligation],
      SameAccount k s t) : a.check s = a.check t := by
  simp only [List.forall_mem_cons, List.not_mem_nil, false_implies, implies_true, and_true] at h
  obtain ⟨hmarket, hreserve, hmint, huser, hobligation⟩ := h
  rw [check, check, market_congr hmarket, reserveOf_congr hreserve hmint,
    tokenAccount_congr huser, obligationOf_congr hobligation]

theorem LiquidationAccounts.check_congr {a : LiquidationAccounts}
    (h : ∀ k ∈ [a.lendingMarket, a.obligation, a.repayReserve, a.repayReserveMint,
      a.liquidatorRepayTokenAccount, a.withdrawReserve, a.liquidatorCollateralAccount],
      SameAccount k s t) : a.check s = a.check t := by
  simp only [List.forall_mem_cons, List.not_mem_nil, false_implies, implies_true, and_true] at h
  obtain ⟨hmarket, hobligation, hrepay, hmint, huser, hwithdraw, hcollateral⟩ := h
  rw [check, check, market_congr hmarket, obligationIn_congr hobligation, reserveIn_congr hrepay,
    load_congr hmint.token.2, tokenAccount_congr huser, reserveIn_congr hwithdraw,
    tokenAccount_congr hcollateral]

end Accounts

/-! ## Following an instruction -/

theorem lockstep_cpi {α β : Type} {p : α → β → Prop} {x : Except TokenError α}
    {y : Except TokenError β} (h : Lockstep p x y) : Lockstep p (cpi x) (cpi y) := h.mapError _

namespace Ledger

/-- Two liquidations followed side by side: they did the same, to reserves that go in tandem. -/
structure Seizure.Abreast (P Q : Set Pubkey) (f g : Pubkey → Option Reserve) (s s' : Seizure) :
    Prop where
  reserves : Tandem P Q f g s.reserves s'.reserves
  obligation : s.obligation = s'.obligation
  actualRepay : s.actualRepay = s'.actualRepay
  ctokensToSeize : s.ctokensToSeize = s'.ctokensToSeize

variable {P Q : Set Pubkey} {clock : Clock} {repayKey withdrawKey : Pubkey}
  {f g : Pubkey → Option Reserve}

/-- A liquidation looks at two reserves, and writes them. -/
theorem lockstep_seize (gate : Obligation → Result Unit) (o : Obligation) (a : U64)
    (h : Tandem P Q f g f g) (hQ : Q ⊆ P) (hrepay : repayKey ∈ Q) (hwithdraw : withdrawKey ∈ Q) :
    Lockstep (Seizure.Abreast P Q f g) (seize gate clock repayKey withdrawKey f o a)
      (seize gate clock repayKey withdrawKey g o a) := by
  unfold seize
  refine .bind_same (load_congr (h.agree _ (hQ hrepay))) fun p => ?_
  refine .bind_same rfl fun p₁ => ?_
  have h₁ := tandem_store h hrepay p₁
  refine .bind_same (load_congr (h₁.agree _ (hQ hwithdraw))) fun q => ?_
  refine .bind_same rfl fun q₁ => ?_
  have h₂ := tandem_store h₁ hwithdraw q₁
  -- from here to the second load the two maps play no part
  refine .bind_same rfl fun _ => ?_
  refine .bind_same rfl fun _ => ?_
  refine .bind_same rfl fun _ => ?_
  refine .bind_same rfl fun i => ?_
  refine .bind_same rfl fun o₁ => ?_
  refine .bind_same rfl fun _ => ?_
  refine .bind_same rfl fun _ => ?_
  refine .bind_same rfl fun _ => ?_
  refine .bind_same rfl fun j => ?_
  refine .bind_same rfl fun _ => ?_
  refine .bind_same rfl fun o₂ => ?_
  refine .bind_same rfl fun o₃ => ?_
  refine .bind_same (load_congr (h₂.agree _ (hQ hrepay))) fun p₂ => ?_
  refine .bind_same rfl fun p₃ => ?_
  exact .ok ⟨tandem_store h₂ hrepay p₃, rfl, rfl, rfl⟩

theorem lockstep_liquidate (m : LendingMarket) (o : Obligation) (a : U64)
    (h : Tandem P Q f g f g) (hQ : Q ⊆ P) (hrepay : repayKey ∈ Q) (hwithdraw : withdrawKey ∈ Q) :
    Lockstep (Seizure.Abreast P Q f g) (liquidate m clock repayKey withdrawKey f o a)
      (liquidate m clock repayKey withdrawKey g o a) := by
  unfold liquidate
  refine .bind_same rfl fun _ => ?_
  refine .bind_same rfl fun _ => ?_
  exact lockstep_seize _ o a h hQ hrepay hwithdraw

theorem lockstep_executePrivateLiquidation (m : LendingMarket) (flag : Bool) (o : Obligation)
    (a : U64) (h : Tandem P Q f g f g) (hQ : Q ⊆ P) (hrepay : repayKey ∈ Q)
    (hwithdraw : withdrawKey ∈ Q) : Lockstep (Seizure.Abreast P Q f g)
      (executePrivateLiquidation m flag clock repayKey withdrawKey f o a)
      (executePrivateLiquidation m flag clock repayKey withdrawKey g o a) := by
  unfold executePrivateLiquidation
  refine .bind_same rfl fun _ => ?_
  refine .bind_same rfl fun _ => ?_
  refine .bind_same rfl fun _ => ?_
  refine .bind_same rfl fun _ => ?_
  exact lockstep_seize _ o a h hQ hrepay hwithdraw

end Ledger

namespace World

variable {mxe : Mxe} {ix : Instruction} {s t : World} {k : Pubkey}

@[simp]
theorem mem_keysOf_written : k ∈ keysOf ix.written ↔ .account k ∈ ix.writes := Iff.rfl

@[simp]
theorem mem_keysOf_touched : k ∈ keysOf ix.touched ↔ .account k ∈ ix.reads ++ ix.writes := Iff.rfl

theorem keysOf_written_subset (ix : Instruction) : keysOf ix.written ⊆ keysOf ix.touched :=
  fun _ hk => ix.written_subset_touched hk

theorem sameAccounts {ks : List Pubkey} (h : SameOn ix.touched s t)
    (hks : ∀ k ∈ ks, .account k ∈ ix.reads ++ ix.writes) : ∀ k ∈ ks, SameAccount k s t :=
  fun k hk => h (.account k) (hks k hk)

theorem sameAccount (h : SameOn ix.touched s t) (hk : .account k ∈ ix.reads ++ ix.writes) :
    SameAccount k s t := h (.account k) hk

theorem sameClock (h : SameOn ix.touched s t) (hclock : .clock ∈ ix.reads) : s.clock = t.clock :=
  h .clock (List.mem_append_left _ hclock)

/-- Nothing but what it touches matters to the instruction, and nothing but what it writes is
changed. -/
def Local (mxe : Mxe) (ix : Instruction) : Prop :=
  ∀ s t : World, SameOn ix.touched s t →
    Lockstep (Abreast ix.touched ix.written s t) (s.exec mxe ix) (t.exec mxe ix)

/-! ### Markets and reserves -/

theorem local_initializeMarket (owner key : Pubkey) (fee : U16) :
    Local mxe (.initializeMarket owner key fee) := by
  intro s t h
  have hstart := abreast_of_sameOn h (Instruction.initializeMarket owner key fee).written
  have hkey : s.markets key = t.markets key := (sameAccount h (by simp)).market
  show Lockstep _ (s.initializeMarket owner key fee) (t.initializeMarket owner key fee)
  unfold World.initializeMarket
  refine .bind_same rfl fun _ => ?_
  refine .bind_same (by rw [vacant, vacant, hkey]) fun _ => ?_
  refine .bind_same rfl fun _ => ?_
  refine .bind_same rfl fun _ => ?_
  exact .ok { hstart with markets := tandem_store hstart.markets (by simp) _ }

theorem local_setPause (owner key : Pubkey) (paused : Bool) :
    Local mxe (.setPause owner key paused) := by
  intro s t h
  have hstart := abreast_of_sameOn h (Instruction.setPause owner key paused).written
  show Lockstep _ (s.setPause owner key paused) (t.setPause owner key paused)
  unfold World.setPause
  refine .bind_same (ownedMarket_congr (sameAccount h (by simp))) fun m => ?_
  exact .ok { hstart with markets := tandem_store hstart.markets (by simp) _ }

theorem local_updateMarketAuthority (owner key newAuthority : Pubkey) :
    Local mxe (.updateMarketAuthority owner key newAuthority) := by
  intro s t h
  have hstart :=
    abreast_of_sameOn h (Instruction.updateMarketAuthority owner key newAuthority).written
  show Lockstep _ (s.updateMarketAuthority owner key newAuthority)
    (t.updateMarketAuthority owner key newAuthority)
  unfold World.updateMarketAuthority
  refine .bind_same (ownedMarket_congr (sameAccount h (by simp))) fun m => ?_
  exact .ok { hstart with markets := tandem_store hstart.markets (by simp) _ }

theorem local_addReserve (a : AddReserveAccounts) (config : InitReserveConfigParams) :
    Local mxe (.addReserve a config) := by
  intro s t h
  have hstart := abreast_of_sameOn h (Instruction.addReserve a config).written
  have hW := keysOf_written_subset (.addReserve a config)
  have hclock := sameClock h (by simp)
  have hkey : s.reserves a.reserve = t.reserves a.reserve := (sameAccount h (by simp)).reserve
  show Lockstep _ (s.addReserve a config) (t.addReserve a config)
  unfold World.addReserve
  refine .bind_same (ownedMarket_congr (sameAccount h (by simp))) fun m => ?_
  refine .bind_same rfl fun _ => ?_
  refine .bind_same (by rw [vacant, vacant, hkey]) fun _ => ?_
  refine .bind_same rfl fun _ => ?_
  refine .bind_same rfl fun _ => ?_
  -- the four accounts are opened one after another
  refine .bind (lockstep_cpi (TokenLedger.lockstep_openAccount hstart.tokens hW (by simp)
    (by simp))) fun tokens₁ tokens₁' h₁ => ?_
  refine .bind_same rfl fun _ => ?_
  refine .bind (lockstep_cpi (TokenLedger.lockstep_openAccount h₁ hW (by simp) (by simp)))
    fun tokens₂ tokens₂' h₂ => ?_
  refine .bind_same rfl fun _ => ?_
  refine .bind (lockstep_cpi (TokenLedger.lockstep_openMint h₂ hW (by simp)))
    fun tokens₃ tokens₃' h₃ => ?_
  refine .bind_same rfl fun _ => ?_
  refine .bind (lockstep_cpi (TokenLedger.lockstep_openAccount h₃ hW (by simp) (by simp)))
    fun tokens₄ tokens₄' h₄ => ?_
  refine .bind_same (by rw [hclock]) fun r => ?_
  exact .ok { hstart with reserves := tandem_store hstart.reserves (by simp) _, tokens := h₄ }

theorem local_updateReserveConfig (owner M mint key : Pubkey) (config : InitReserveConfigParams) :
    Local mxe (.updateReserveConfig owner M mint key config) := by
  intro s t h
  have hstart := abreast_of_sameOn h
    (Instruction.updateReserveConfig owner M mint key config).written
  show Lockstep _ (s.updateReserveConfig owner M mint key config)
    (t.updateReserveConfig owner M mint key config)
  unfold World.updateReserveConfig
  refine .bind_same (ownedMarket_congr (sameAccount h (by simp))) fun _ => ?_
  refine .bind_same (reserveOf_congr (sameAccount h (by simp)) (sameAccount h (by simp)))
    fun r => ?_
  refine .bind_same rfl fun _ => ?_
  refine .bind_same rfl fun r' => ?_
  exact .ok { hstart with reserves := tandem_store hstart.reserves (by simp) _ }

theorem local_refreshReserve (M key priceKey : Pubkey) (update : Option PriceUpdate) :
    Local mxe (.refreshReserve M key priceKey update) := by
  intro s t h
  have hstart := abreast_of_sameOn h (Instruction.refreshReserve M key priceKey update).written
  have hclock := sameClock h (by simp)
  show Lockstep _ (s.refreshReserve M key priceKey update) (t.refreshReserve M key priceKey update)
  unfold World.refreshReserve
  refine .bind_same (market_congr (sameAccount h (by simp))) fun _ => ?_
  refine .bind_same (reserveIn_congr (sameAccount h (by simp))) fun r => ?_
  refine .bind_same (by rw [hclock]) fun r' => ?_
  exact .ok { hstart with reserves := tandem_store hstart.reserves (by simp) _ }

theorem local_deposit (a : LiquidityAccounts) (amount : U64) : Local mxe (.deposit a amount) := by
  intro s t h
  have hstart := abreast_of_sameOn h (Instruction.deposit a amount).written
  have hW := keysOf_written_subset (.deposit a amount)
  have hclock := sameClock h (by simp)
  show Lockstep _ (s.deposit a amount) (t.deposit a amount)
  unfold World.deposit
  refine .bind_same (a.check_congr (sameAccounts h (by simp))) fun p => ?_
  refine .bind_same (by rw [hclock]) fun q => ?_
  refine .bind (lockstep_cpi (TokenLedger.lockstep_transfer hstart.tokens hW (by simp) (by simp)
    (by simp))) fun tokens tokens' h₁ => ?_
  refine .bind (lockstep_cpi (TokenLedger.lockstep_mintTo h₁ hW (by simp) (by simp)))
    fun tokens tokens' h₂ => ?_
  exact .ok { hstart with reserves := tandem_store hstart.reserves (by simp) _, tokens := h₂ }

theorem local_withdraw (a : LiquidityAccounts) (amount : U64) :
    Local mxe (.withdraw a amount) := by
  intro s t h
  have hstart := abreast_of_sameOn h (Instruction.withdraw a amount).written
  have hW := keysOf_written_subset (.withdraw a amount)
  have hclock := sameClock h (by simp)
  show Lockstep _ (s.withdraw a amount) (t.withdraw a amount)
  unfold World.withdraw
  refine .bind_same (a.check_congr (sameAccounts h (by simp))) fun p => ?_
  refine .bind_same (by rw [hclock]) fun q => ?_
  refine .bind (lockstep_cpi (TokenLedger.lockstep_burn hstart.tokens hW (by simp) (by simp)))
    fun tokens tokens' h₁ => ?_
  refine .bind (lockstep_cpi (TokenLedger.lockstep_transfer h₁ hW (by simp) (by simp) (by simp)))
    fun tokens tokens' h₂ => ?_
  exact .ok { hstart with reserves := tandem_store hstart.reserves (by simp) _, tokens := h₂ }

/-! ### Obligations -/

theorem local_initObligation (owner M key : Pubkey) : Local mxe (.initObligation owner M key) := by
  intro s t h
  have hstart := abreast_of_sameOn h (Instruction.initObligation owner M key).written
  have hkey : s.obligations key = t.obligations key := (sameAccount h (by simp)).obligation
  show Lockstep _ (s.initObligation owner M key) (t.initObligation owner M key)
  unfold World.initObligation
  refine .bind_same rfl fun _ => ?_
  refine .bind_same (market_congr (sameAccount h (by simp))) fun _ => ?_
  refine .bind_same (by rw [vacant, vacant, hkey]) fun _ => ?_
  refine .bind_same rfl fun _ => ?_
  exact .ok { hstart with obligations := tandem_store hstart.obligations (by simp) _ }

/-- A refresh looks at no reserve but those it is passed. -/
theorem local_refreshObligation (M key : Pubkey) (accounts : List Pubkey) :
    Local mxe (.refreshObligation M key accounts) := by
  intro s t h
  have hstart := abreast_of_sameOn h (Instruction.refreshObligation M key accounts).written
  have hclock := sameClock h (by simp)
  have hreserves : ∀ o : Obligation,
      Ledger.refreshObligation s.reserves accounts s.clock o =
        Ledger.refreshObligation t.reserves accounts t.clock o := by
    intro o
    rw [hclock]
    refine Ledger.refreshObligation_congr fun k _ => ⟨Iff.rfl, fun hk => ?_⟩
    exact (sameAccount h (by simp [hk])).reserve
  show Lockstep _ (s.refreshObligation M key accounts) (t.refreshObligation M key accounts)
  unfold World.refreshObligation
  refine .bind_same (load_congr (sameAccount h (by simp)).market) fun _ => ?_
  refine .bind_same (obligationIn_congr (sameAccount h (by simp))) fun o => ?_
  refine .bind_same (hreserves o) fun o' => ?_
  exact .ok { hstart with obligations := tandem_store hstart.obligations (by simp) _ }

theorem local_depositCollateral (a : CollateralAccounts) (amount : U64) :
    Local mxe (.depositCollateral a amount) := by
  intro s t h
  have hstart := abreast_of_sameOn h (Instruction.depositCollateral a amount).written
  have hW := keysOf_written_subset (.depositCollateral a amount)
  show Lockstep _ (s.depositCollateral a amount) (t.depositCollateral a amount)
  unfold World.depositCollateral
  refine .bind_same (a.check_congr (sameAccounts h (by simp))) fun p => ?_
  refine .bind_same rfl fun o => ?_
  refine .bind (lockstep_cpi (TokenLedger.lockstep_transfer hstart.tokens hW (by simp) (by simp)
    (by simp))) fun tokens tokens' h₁ => ?_
  exact .ok { hstart with obligations := tandem_store hstart.obligations (by simp) _, tokens := h₁ }

theorem local_withdrawCollateral (a : CollateralAccounts) (amount : U64) :
    Local mxe (.withdrawCollateral a amount) := by
  intro s t h
  have hstart := abreast_of_sameOn h (Instruction.withdrawCollateral a amount).written
  have hW := keysOf_written_subset (.withdrawCollateral a amount)
  have hclock := sameClock h (by simp)
  show Lockstep _ (s.withdrawCollateral a amount) (t.withdrawCollateral a amount)
  unfold World.withdrawCollateral
  refine .bind_same (a.check_congr (sameAccounts h (by simp))) fun p => ?_
  refine .bind_same (by rw [hclock]) fun o => ?_
  refine .bind (lockstep_cpi (TokenLedger.lockstep_transfer hstart.tokens hW (by simp) (by simp)
    (by simp))) fun tokens tokens' h₁ => ?_
  exact .ok { hstart with obligations := tandem_store hstart.obligations (by simp) _, tokens := h₁ }

theorem local_borrow (a : DebtAccounts) (amount : U64) : Local mxe (.borrow a amount) := by
  intro s t h
  have hstart := abreast_of_sameOn h (Instruction.borrow a amount).written
  have hW := keysOf_written_subset (.borrow a amount)
  have hclock := sameClock h (by simp)
  show Lockstep _ (s.borrow a amount) (t.borrow a amount)
  unfold World.borrow
  refine .bind_same (a.check_congr (sameAccounts h (by simp))) fun p => ?_
  refine .bind_same (by rw [hclock]) fun q => ?_
  refine .bind (lockstep_cpi (TokenLedger.lockstep_transfer hstart.tokens hW (by simp) (by simp)
    (by simp))) fun tokens tokens' h₁ => ?_
  exact .ok { hstart with
    reserves := tandem_store hstart.reserves (by simp) _
    obligations := tandem_store hstart.obligations (by simp) _
    tokens := h₁ }

theorem local_repay (a : DebtAccounts) (amount : U64) : Local mxe (.repay a amount) := by
  intro s t h
  have hstart := abreast_of_sameOn h (Instruction.repay a amount).written
  have hW := keysOf_written_subset (.repay a amount)
  have hclock := sameClock h (by simp)
  show Lockstep _ (s.repay a amount) (t.repay a amount)
  unfold World.repay
  refine .bind_same (a.check_congr (sameAccounts h (by simp))) fun p => ?_
  refine .bind_same (ownTokenAccount_congr (sameAccount h (by simp))) fun _ => ?_
  refine .bind_same (by rw [hclock]) fun q => ?_
  refine .bind (lockstep_cpi (TokenLedger.lockstep_transfer hstart.tokens hW (by simp) (by simp)
    (by simp))) fun tokens tokens' h₁ => ?_
  exact .ok { hstart with
    reserves := tandem_store hstart.reserves (by simp) _
    obligations := tandem_store hstart.obligations (by simp) _
    tokens := h₁ }

/-! ### Liquidations -/

section Liquidations

variable {R W : Set Location} {a : LiquidationAccounts}

/-- The accounts of a liquidation, in a footprint. -/
structure Covered (R W : Set Location) (a : LiquidationAccounts) : Prop where
  written : ∀ l ∈ a.writes, l ∈ W
  subset : W ⊆ R
  repayMint : .account a.repayReserveMint ∈ R
  withdrawMint : .account a.withdrawCollateralMint ∈ R

theorem lockstep_settleSeizure (hcovered : Covered R W a) (h : Abreast R W s t s t)
    {z z' : Ledger.Seizure}
    (hz : Ledger.Seizure.Abreast (keysOf R) (keysOf W) s.reserves t.reserves z z') :
    Lockstep (Abreast R W s t) (s.settleSeizure a z) (t.settleSeizure a z') := by
  obtain ⟨hreserves, hobligation, hrepay, hseize⟩ := hz
  have hW : keysOf W ⊆ keysOf R := fun _ hk => hcovered.subset hk
  have hwritten {k : Pubkey} (hk : .account k ∈ a.writes) : k ∈ keysOf W := hcovered.written _ hk
  unfold settleSeizure
  rw [hobligation, hrepay, hseize]
  refine .bind (lockstep_cpi (TokenLedger.lockstep_transfer h.tokens hW
    (hwritten (by simp [LiquidationAccounts.writes]))
    (hwritten (by simp [LiquidationAccounts.writes])) hcovered.repayMint))
    fun tokens tokens' h₁ => ?_
  refine .bind (lockstep_cpi (TokenLedger.lockstep_transfer h₁ hW
    (hwritten (by simp [LiquidationAccounts.writes]))
    (hwritten (by simp [LiquidationAccounts.writes])) hcovered.withdrawMint))
    fun tokens tokens' h₂ => ?_
  exact .ok { h with
    reserves := hreserves
    obligations := tandem_store h.obligations (hwritten (by simp [LiquidationAccounts.writes])) _
    tokens := h₂ }

theorem local_liquidate (a : LiquidationAccounts) (amount : U64) :
    Local mxe (.liquidate a amount) := by
  intro s t h
  have hstart := abreast_of_sameOn h (Instruction.liquidate a amount).written
  have hW := keysOf_written_subset (.liquidate a amount)
  have hclock := sameClock h (by simp)
  have hcovered : Covered (Instruction.liquidate a amount).touched
      (Instruction.liquidate a amount).written a :=
    ⟨fun _ hl => hl, Instruction.written_subset_touched _, List.mem_append_left _ (by simp),
      List.mem_append_left _ (by simp)⟩
  show Lockstep _ (s.liquidate a amount) (t.liquidate a amount)
  unfold World.liquidate
  refine .bind_same (a.check_congr (sameAccounts h (by simp [LiquidationAccounts.writes])))
    fun p => ?_
  rw [hclock]
  refine .bind (Ledger.lockstep_liquidate _ _ _ hstart.reserves hW
    (by simp [LiquidationAccounts.writes]) (by simp [LiquidationAccounts.writes]))
    fun z z' hz => ?_
  exact lockstep_settleSeizure hcovered hstart hz

theorem local_executePrivateLiquidation (a : PrivateLiquidationAccounts) (amount : U64) :
    Local mxe (.executePrivateLiquidation a amount) := by
  intro s t h
  have hstart := abreast_of_sameOn h (Instruction.executePrivateLiquidation a amount).written
  have hW := keysOf_written_subset (.executePrivateLiquidation a amount)
  have hclock := sameClock h (by simp)
  have hcovered : Covered (Instruction.executePrivateLiquidation a amount).touched
      (Instruction.executePrivateLiquidation a amount).written a.toLiquidationAccounts :=
    ⟨fun _ hl => List.mem_cons_of_mem _ hl, Instruction.written_subset_touched _,
      List.mem_append_left _ (by simp), List.mem_append_left _ (by simp)⟩
  show Lockstep _ (s.executePrivateLiquidation a amount) (t.executePrivateLiquidation a amount)
  unfold World.executePrivateLiquidation
  refine .bind_same (a.check_congr (sameAccounts h (by simp [LiquidationAccounts.writes])))
    fun p => ?_
  refine .bind_same (privateOf_congr (sameAccount h (by simp))) fun q => ?_
  refine .bind_same (ownTokenAccount_congr
    (sameAccount h (by simp [LiquidationAccounts.writes]))) fun _ => ?_
  rw [hclock]
  refine .bind (Ledger.lockstep_executePrivateLiquidation _ _ _ _ hstart.reserves hW
    (by simp [LiquidationAccounts.writes]) (by simp [LiquidationAccounts.writes]))
    fun z z' hz => ?_
  refine .bind (lockstep_settleSeizure hcovered hstart hz) fun v v' hv => ?_
  exact .ok { hv with privates := tandem_store hv.privates (by simp) _ }

end Liquidations

/-! ### Private obligations -/

theorem local_initPrivateObligation (payer M key : Pubkey) :
    Local mxe (.initPrivateObligation payer M key) := by
  intro s t h
  have hstart := abreast_of_sameOn h (Instruction.initPrivateObligation payer M key).written
  have hkey : s.privates key = t.privates key := (sameAccount h (by simp)).privateObligation
  show Lockstep _ (s.initPrivateObligation payer M key) (t.initPrivateObligation payer M key)
  unfold World.initPrivateObligation
  refine .bind_same rfl fun _ => ?_
  refine .bind_same (market_congr (sameAccount h (by simp))) fun _ => ?_
  refine .bind_same rfl fun _ => ?_
  refine .bind_same (by rw [loadOrInit, loadOrInit, hkey]) fun p => ?_
  exact .ok { hstart with privates := tandem_store hstart.privates (by simp) _ }

theorem local_privateDepositCollateral (a : PrivateCollateralAccounts) (amount : U64)
    (encrypted : SharedAmount) : Local mxe (.privateDepositCollateral a amount encrypted) := by
  intro s t h
  have hstart :=
    abreast_of_sameOn h (Instruction.privateDepositCollateral a amount encrypted).written
  have hW := keysOf_written_subset (.privateDepositCollateral a amount encrypted)
  show Lockstep _ (s.privateDepositCollateral a amount encrypted)
    (t.privateDepositCollateral a amount encrypted)
  unfold World.privateDepositCollateral
  refine .bind_same (a.check_congr (sameAccounts h (by simp))) fun p => ?_
  refine .bind_same (privateOf_congr (sameAccount h (by simp))) fun q => ?_
  refine .bind_same rfl fun _ => ?_
  refine .bind_same rfl fun o => ?_
  refine .bind (lockstep_cpi (TokenLedger.lockstep_transfer hstart.tokens hW (by simp) (by simp)
    (by simp))) fun tokens tokens' h₁ => ?_
  refine .bind_same rfl fun q' => ?_
  exact .ok { hstart with
    obligations := tandem_store hstart.obligations (by simp) _
    privates := tandem_store hstart.privates (by simp) _
    tokens := h₁ }

theorem local_privateBorrow (a : PrivateDebtAccounts) (amount : U64) (encrypted : SharedAmount) :
    Local mxe (.privateBorrow a amount encrypted) := by
  intro s t h
  have hstart := abreast_of_sameOn h (Instruction.privateBorrow a amount encrypted).written
  have hW := keysOf_written_subset (.privateBorrow a amount encrypted)
  have hclock := sameClock h (by simp)
  show Lockstep _ (s.privateBorrow a amount encrypted) (t.privateBorrow a amount encrypted)
  unfold World.privateBorrow
  refine .bind_same (a.check_congr (sameAccounts h (by simp))) fun p => ?_
  refine .bind_same (privateOf_congr (sameAccount h (by simp))) fun q => ?_
  refine .bind_same (by rw [hclock]) fun x => ?_
  refine .bind (lockstep_cpi (TokenLedger.lockstep_transfer hstart.tokens hW (by simp) (by simp)
    (by simp))) fun tokens tokens' h₁ => ?_
  refine .bind_same rfl fun q' => ?_
  exact .ok { hstart with
    reserves := tandem_store hstart.reserves (by simp) _
    obligations := tandem_store hstart.obligations (by simp) _
    privates := tandem_store hstart.privates (by simp) _
    tokens := h₁ }

theorem local_privateCheckLiquidatable (liquidator M owner key : Pubkey)
    (rate cprice bprice ltv : U64) :
    Local mxe (.privateCheckLiquidatable liquidator M owner key rate cprice bprice ltv) := by
  intro s t h
  have hstart := abreast_of_sameOn h
    (Instruction.privateCheckLiquidatable liquidator M owner key rate cprice bprice ltv).written
  show Lockstep _ (s.privateCheckLiquidatable liquidator M owner key rate cprice bprice ltv)
    (t.privateCheckLiquidatable liquidator M owner key rate cprice bprice ltv)
  unfold World.privateCheckLiquidatable
  refine .bind_same rfl fun _ => ?_
  refine .bind_same (market_congr (sameAccount h (by simp))) fun _ => ?_
  refine .bind_same (privateOf_congr (sameAccount h (by simp))) fun q => ?_
  refine .bind_same rfl fun q' => ?_
  exact .ok { hstart with privates := tandem_store hstart.privates (by simp) _ }

/-! ### The outside world -/

theorem local_advanceClock (clock : Clock) : Local mxe (.advanceClock clock) := by
  intro s t h
  have hstart := abreast_of_sameOn h (Instruction.advanceClock clock).written
  have hclock : s.clock = t.clock := h .clock (List.mem_cons_self ..)
  show Lockstep _ (s.advanceClock clock) (t.advanceClock clock)
  unfold World.advanceClock
  refine .bind_same (by rw [hclock]) fun _ => ?_
  refine .bind_same (by rw [hclock]) fun _ => ?_
  exact .ok { hstart with
    clock := fun _ => rfl
    clocks := fun hno => absurd (List.mem_cons_self ..) hno }

theorem local_executeComputation (key : Pubkey) (i : Nat) (fresh : U128) :
    Local mxe (.executeComputation key i fresh) := by
  intro s t h
  have hstart := abreast_of_sameOn h (Instruction.executeComputation key i fresh).written
  show Lockstep _ (s.executeComputation mxe key i fresh) (t.executeComputation mxe key i fresh)
  unfold World.executeComputation
  refine .bind_same (load_congr (sameAccount h (by simp)).privateObligation) fun q => ?_
  exact .ok { hstart with privates := tandem_store hstart.privates (by simp) _ }

theorem local_callback (key : Pubkey) (i : Nat) : Local mxe (.callback key i) := by
  intro s t h
  have hstart := abreast_of_sameOn h (Instruction.callback key i).written
  show Lockstep _ (s.callback key i) (t.callback key i)
  unfold World.callback
  refine .bind_same (load_congr (sameAccount h (by simp)).privateObligation) fun q => ?_
  exact .ok { hstart with privates := tandem_store hstart.privates (by simp) _ }

theorem local_abortComputation (key : Pubkey) (executed : Bool) (i : Nat) :
    Local mxe (.abortComputation key executed i) := by
  intro s t h
  have hstart := abreast_of_sameOn h (Instruction.abortComputation key executed i).written
  show Lockstep _ (s.abortComputation key executed i) (t.abortComputation key executed i)
  unfold World.abortComputation
  refine .bind_same (load_congr (sameAccount h (by simp)).privateObligation) fun q => ?_
  exact .ok { hstart with privates := tandem_store hstart.privates (by simp) _ }

theorem local_openMint (key authority : Pubkey) : Local mxe (.openMint key authority) := by
  intro s t h
  have hstart := abreast_of_sameOn h (Instruction.openMint key authority).written
  have hW := keysOf_written_subset (.openMint key authority)
  show Lockstep _ (s.openMint key authority) (t.openMint key authority)
  unfold World.openMint
  refine .bind_same rfl fun _ => ?_
  refine .bind (lockstep_cpi (TokenLedger.lockstep_openMint hstart.tokens hW (by simp)))
    fun tokens tokens' h₁ => ?_
  exact .ok { hstart with tokens := h₁ }

theorem local_openTokenAccount (key mint authority : Pubkey) :
    Local mxe (.openTokenAccount key mint authority) := by
  intro s t h
  have hstart := abreast_of_sameOn h (Instruction.openTokenAccount key mint authority).written
  have hW := keysOf_written_subset (.openTokenAccount key mint authority)
  show Lockstep _ (s.openTokenAccount key mint authority) (t.openTokenAccount key mint authority)
  unfold World.openTokenAccount
  refine .bind_same rfl fun _ => ?_
  refine .bind (lockstep_cpi (TokenLedger.lockstep_openAccount hstart.tokens hW (by simp)
    (by simp))) fun tokens tokens' h₁ => ?_
  exact .ok { hstart with tokens := h₁ }

theorem local_mintTokens (mint destination authority : Pubkey) (amount : U64) :
    Local mxe (.mintTokens mint destination authority amount) := by
  intro s t h
  have hstart :=
    abreast_of_sameOn h (Instruction.mintTokens mint destination authority amount).written
  have hW := keysOf_written_subset (.mintTokens mint destination authority amount)
  show Lockstep _ (s.mintTokens mint destination authority amount)
    (t.mintTokens mint destination authority amount)
  unfold World.mintTokens
  refine .bind_same rfl fun _ => ?_
  refine .bind (lockstep_cpi (TokenLedger.lockstep_mintTo hstart.tokens hW (by simp) (by simp)))
    fun tokens tokens' h₁ => ?_
  exact .ok { hstart with tokens := h₁ }

theorem local_transferTokens (source mint destination authority : Pubkey) (amount : U64) :
    Local mxe (.transferTokens source mint destination authority amount) := by
  intro s t h
  have hstart := abreast_of_sameOn h
    (Instruction.transferTokens source mint destination authority amount).written
  have hW := keysOf_written_subset (.transferTokens source mint destination authority amount)
  show Lockstep _ (s.transferTokens source mint destination authority amount)
    (t.transferTokens source mint destination authority amount)
  unfold World.transferTokens
  refine .bind_same rfl fun _ => ?_
  refine .bind (lockstep_cpi (TokenLedger.lockstep_transfer hstart.tokens hW (by simp) (by simp)
    (by simp))) fun tokens tokens' h₁ => ?_
  exact .ok { hstart with tokens := h₁ }

theorem local_burnTokens (mint source authority : Pubkey) (amount : U64) :
    Local mxe (.burnTokens mint source authority amount) := by
  intro s t h
  have hstart := abreast_of_sameOn h (Instruction.burnTokens mint source authority amount).written
  have hW := keysOf_written_subset (.burnTokens mint source authority amount)
  show Lockstep _ (s.burnTokens mint source authority amount)
    (t.burnTokens mint source authority amount)
  unfold World.burnTokens
  refine .bind_same rfl fun _ => ?_
  refine .bind (lockstep_cpi (TokenLedger.lockstep_burn hstart.tokens hW (by simp) (by simp)))
    fun tokens tokens' h₁ => ?_
  exact .ok { hstart with tokens := h₁ }

/-! ## Transactions -/

theorem local_exec (mxe : Mxe) (ix : Instruction) : Local mxe ix := by
  cases ix with
  | initializeMarket owner key fee => exact local_initializeMarket owner key fee
  | setPause owner key paused => exact local_setPause owner key paused
  | updateMarketAuthority owner key new => exact local_updateMarketAuthority owner key new
  | addReserve a config => exact local_addReserve a config
  | updateReserveConfig owner M mint key c => exact local_updateReserveConfig owner M mint key c
  | refreshReserve M key priceKey update => exact local_refreshReserve M key priceKey update
  | deposit a amount => exact local_deposit a amount
  | withdraw a amount => exact local_withdraw a amount
  | initObligation owner M key => exact local_initObligation owner M key
  | refreshObligation M key accounts => exact local_refreshObligation M key accounts
  | depositCollateral a amount => exact local_depositCollateral a amount
  | withdrawCollateral a amount => exact local_withdrawCollateral a amount
  | borrow a amount => exact local_borrow a amount
  | repay a amount => exact local_repay a amount
  | liquidate a amount => exact local_liquidate a amount
  | initPrivateObligation payer M key => exact local_initPrivateObligation payer M key
  | privateDepositCollateral a amount e => exact local_privateDepositCollateral a amount e
  | privateBorrow a amount e => exact local_privateBorrow a amount e
  | privateCheckLiquidatable l M owner key rate cprice bprice ltv =>
      exact local_privateCheckLiquidatable l M owner key rate cprice bprice ltv
  | executePrivateLiquidation a amount => exact local_executePrivateLiquidation a amount
  | advanceClock clock => exact local_advanceClock clock
  | executeComputation key i fresh => exact local_executeComputation key i fresh
  | callback key i => exact local_callback key i
  | abortComputation key executed i => exact local_abortComputation key executed i
  | openMint key authority => exact local_openMint key authority
  | openTokenAccount key mint authority => exact local_openTokenAccount key mint authority
  | mintTokens mint dest authority n => exact local_mintTokens mint dest authority n
  | transferTokens src mint dest auth n => exact local_transferTokens src mint dest auth n
  | burnTokens mint source authority n => exact local_burnTokens mint source authority n

/-- A transaction looks at nothing but what it touches, and changes nothing but what it writes. -/
theorem footprint_tx (mxe : Mxe) (ix : Instruction) :
    Footprint ix.touched ix.written (tx mxe · ix) := by
  apply footprint_attempt
  intro s t h
  exact (local_exec mxe ix s t h).imp fun _ _ habreast => habreast.tandem

end World

end VeilVault
