/-
# VeilVault.Ledger.RefreshGate — from the refresh to the gates.

`refresh_obligation` establishes `Current`: its two loops bring every counted debt to its reserve's
index and cache values that the deposits back.  With packed tables the counted slots are all live
slots.  From there `current_exec` carries `Current` through the slot, and
`covered_of_refresh_run` is the statement about whole runs.
-/
import VeilVault.Ledger.SlotGate
import VeilVault.Ledger.Valuation

namespace VeilVault

open Kit Kit.Outcome

namespace Ledger

variable {slot : U64} {reserves : Pubkey → Option Reserve} {accounts : List Pubkey}
  {r : Reserve} {o o' : Obligation} {m : Nat}

/-! ## The refresh -/

/-- `o'` reads the same tables as `o`, apart from amounts, indexes and cached values. -/
structure SameSlots (o o' : Obligation) : Prop where
  borrowKeys : ∀ i : Fin maxBorrowCountInReserve,
    o'.borrows[i].borrowReserve = o.borrows[i].borrowReserve
  depositKeys : ∀ i : Fin maxDepositsCountInReserve,
    o'.deposits[i].depositReserve = o.deposits[i].depositReserve
  borrowsCount : o'.borrowsCount = o.borrowsCount
  depositsCount : o'.depositsCount = o.depositsCount

theorem SameSlots.refl (o : Obligation) : SameSlots o o := ⟨fun _ => rfl, fun _ => rfl, rfl, rfl⟩

theorem SameSlots.setBorrow (h : SameSlots o o')
    {i : Fin maxBorrowCountInReserve} {b : ObligationLiquidity}
    (hb : b.borrowReserve = o'.borrows[i].borrowReserve) : SameSlots o (o'.setBorrow i b) := by
  refine ⟨fun j => ?_, h.depositKeys, h.borrowsCount, h.depositsCount⟩
  rw [Obligation.setBorrow_borrows, getElem_set_fin]
  split
  case isTrue hij => rw [hb, hij, h.borrowKeys]
  case isFalse => exact h.borrowKeys j

theorem SameSlots.setDeposit (h : SameSlots o o')
    {i : Fin maxDepositsCountInReserve} {c : ObligationCollateral}
    (hc : c.depositReserve = o'.deposits[i].depositReserve) : SameSlots o (o'.setDeposit i c) := by
  refine ⟨h.borrowKeys, fun j => ?_, h.borrowsCount, h.depositsCount⟩
  rw [Obligation.setDeposit_deposits, getElem_set_fin]
  split
  case isTrue hij => rw [hc, hij, h.depositKeys]
  case isFalse => exact h.depositKeys j

/-- The reserve is accrued to the slot and has a price. -/
def Ready (slot : U64) (reserves : Pubkey → Option Reserve) (key : Pubkey) : Prop :=
  ∃ r, reserves key = some r ∧ slot.toNat ≤ r.lastUpdateSlot.toNat ∧
    0 < r.liquidity.marketPriceSf.toNat

theorem SameSlots.trans {o'' : Obligation} (h : SameSlots o o') (h' : SameSlots o' o'') :
    SameSlots o o'' where
  borrowKeys := fun i => (h'.borrowKeys i).trans (h.borrowKeys i)
  depositKeys := fun i => (h'.depositKeys i).trans (h.depositKeys i)
  borrowsCount := h'.borrowsCount.trans h.borrowsCount
  depositsCount := h'.depositsCount.trans h.depositsCount

/-- The borrow loop brings a slot to its reserve's index and touches no other. -/
theorem priceBorrowSlot_current {i : Fin maxBorrowCountInReserve}
    (h : priceBorrowSlot reserves accounts o i = .ok o')
    (hready : borrowLayout.Live o.borrows[i] → Ready slot reserves o.borrows[i].borrowReserve) :
    SameSlots o o' ∧ o'.deposits = o.deposits ∧
      (∀ j : Fin maxBorrowCountInReserve, j ≠ i → o'.borrows[j] = o.borrows[j]) ∧
      RateOk slot reserves o'.borrows[i] ∧
      slotDebt reserves o'.borrows[i] ≤ o'.borrows[i].marketValueSf.toNat := by
  rcases priceBorrowSlot_ok h with ⟨rfl, hskip⟩ | ⟨r, o₁, mv, hl, hr, -, ho₁, hmv, rfl⟩
  -- a live slot is only skipped when its reserve has no price, and a ready reserve has one
  · have hfree : ¬ borrowLayout.Live o'.borrows[i] := by
      intro hl
      obtain ⟨r, hr, hzero⟩ := hskip hl
      obtain ⟨q, hq, -, hprice⟩ := hready hl
      obtain rfl := Option.some.inj (hr.symm.trans hq)
      exact absurd hzero (ne_zero_iff_toNat_pos.mp hprice)
    refine ⟨.refl _, rfl, fun _ _ => rfl, fun hl => absurd hl hfree, ?_⟩
    rw [slotDebt, if_neg hfree]
    exact Nat.zero_le _
  · obtain ⟨q, hq, hslot, -⟩ := hready hl
    obtain rfl := Option.some.inj (hr.symm.trans hq)
    have hrate₁ := Obligation.accrueInterest_ok_rate hl ho₁
    -- accruing writes this slot alone, and leaves its key
    have hsame : SameSlots o o₁ ∧ o₁.deposits = o.deposits ∧
        ∀ j : Fin maxBorrowCountInReserve, j ≠ i → o₁.borrows[j] = o.borrows[j] := by
      rcases Obligation.accrueInterest_ok ho₁ with rfl | ⟨-, -, -, d, -, rfl⟩
      · exact ⟨.refl o₁, rfl, fun _ _ => rfl⟩
      · exact ⟨(SameSlots.refl o).setBorrow rfl, rfl,
          fun j hj => getElem_set_fin_ne _ _ (Ne.symm hj)⟩
    have hkey : reserves o₁.borrows[i].borrowReserve = some r := by
      rw [hsame.1.borrowKeys i]
      exact hr
    refine ⟨hsame.1.setBorrow rfl, hsame.2.1, fun j hj => ?_, ?_⟩
    · rw [Obligation.setBorrow_borrows, getElem_set_fin_ne _ _ (Ne.symm hj)]
      exact hsame.2.2 j hj
    · rw [Obligation.setBorrow_borrows, getElem_set_fin_self]
      refine ⟨fun _ => ⟨r, hkey, hslot, hrate₁.symm⟩, ?_⟩
      rw [slotDebt]
      split
      case isTrue =>
        simp only [hkey, Option.elim_some, hmv, Quote.debtValue]
        exact le_refl _
      case isFalse => exact Nat.zero_le _

/-- The cached value is the rounded worth of the amount, or zero. -/
theorem backs_of_priced {ctokens u m₁ m₂ mv : ℕ} {q : Quote}
    (hu : u = if q.supply = 0 then 0 else ctokens * q.total / q.supply) (h₁ : m₁ = u * q.price)
    (h₂ : m₂ = m₁ * q.thresholdPct) (hmv : mv = m₂ / 100) : mv = 0 ∨ q.Backs ctokens mv := by
  by_cases hs : q.supply = 0
  · rw [if_pos hs] at hu
    left
    rw [hmv, h₂, h₁, hu, Nat.zero_mul, Nat.zero_mul, Nat.zero_div]
  · rw [if_neg hs] at hu
    refine .inr ⟨Nat.pos_of_ne_zero hs, ?_⟩
    calc mv * (100 * q.supply)
        = m₂ / 100 * 100 * q.supply := by rw [hmv, Nat.mul_assoc]
      _ ≤ m₂ * q.supply := Nat.mul_le_mul_right _ (Nat.div_mul_le_self _ _)
      _ = u * q.supply * q.price * q.thresholdPct := by rw [h₂, h₁]; ring
      _ ≤ ctokens * q.total * q.price * q.thresholdPct := by
          refine Nat.mul_le_mul_right _ (Nat.mul_le_mul_right _ ?_)
          rw [hu]
          exact Nat.div_mul_le_self _ _

/-- The deposit loop caches a value the slot's amount backs, and touches no other slot. -/
theorem priceDepositSlot_current {i : Fin maxDepositsCountInReserve}
    (h : priceDepositSlot reserves accounts o i = .ok o')
    (hready : depositLayout.Live o.deposits[i] → Ready slot reserves o.deposits[i].depositReserve) :
    SameSlots o o' ∧ o'.borrows = o.borrows ∧
      (∀ j : Fin maxDepositsCountInReserve, j ≠ i → o'.deposits[j] = o.deposits[j]) ∧
      CacheOk slot reserves o'.deposits[i] := by
  rcases priceDepositSlot_ok h with ⟨rfl, hskip⟩ | ⟨r, t, u, mv, hl, hr, -, ht, hu, hmv, rfl⟩
  · refine ⟨.refl _, rfl, fun _ _ => rfl, fun hl => ?_⟩
    obtain ⟨r, hr, hzero⟩ := hskip hl
    obtain ⟨q, hq, -, hprice⟩ := hready hl
    obtain rfl := Option.some.inj (hr.symm.trans hq)
    exact absurd hzero (ne_zero_iff_toNat_pos.mp hprice)
  · obtain ⟨q, hq, hslot, -⟩ := hready hl
    obtain rfl := Option.some.inj (hr.symm.trans hq)
    refine ⟨(SameSlots.refl o).setDeposit rfl, rfl,
      fun j hj => getElem_set_fin_ne _ _ (Ne.symm hj), ?_⟩
    rw [Obligation.setDeposit_deposits, getElem_set_fin_self]
    exact fun _ => (backs_of_priced (q := r.quote) (toNat_underlyingOf ht hu) rfl rfl hmv).imp_right
      fun hb => ⟨r, hr, hslot, hb⟩

/-! ## The loops -/

/-- After `m` iterations of the borrow loop the first `m` slots stand at their reserves' index, and
their cached values cover them. -/
structure BorrowsPriced (slot : U64) (reserves : Pubkey → Option Reserve) (o o' : Obligation)
    (m : Nat) : Prop where
  bound : m ≤ maxBorrowCountInReserve
  same : SameSlots o o'
  deposits : o'.deposits = o.deposits
  rates : ∀ i : Fin maxBorrowCountInReserve, i.val < m → RateOk slot reserves o'.borrows[i] ∧
    slotDebt reserves o'.borrows[i] ≤ o'.borrows[i].marketValueSf.toNat

theorem BorrowsPriced.step {o₀ : Obligation} (h : BorrowsPriced slot reserves o₀ o m)
    (hready : ∀ i : Fin maxBorrowCountInReserve, borrowLayout.Live o₀.borrows[i] →
      Ready slot reserves o₀.borrows[i].borrowReserve)
    (hstep : priceBorrow reserves accounts o m = .ok o') :
    BorrowsPriced slot reserves o₀ o' (m + 1) := by
  unfold priceBorrow at hstep
  split at hstep
  case isFalse => cases hstep
  case isTrue hm =>
    have hkey := h.same.borrowKeys ⟨m, hm⟩
    obtain ⟨hsame, hdep, hother, hrate⟩ := priceBorrowSlot_current hstep fun hl => by
      rw [hkey]
      refine hready ⟨m, hm⟩ fun hdef => hl ?_
      exact hkey.trans hdef
    refine ⟨hm, h.same.trans hsame, hdep.trans h.deposits, fun i hi => ?_⟩
    by_cases him : i = ⟨m, hm⟩
    · rw [him]
      exact hrate
    · have hlt : i.val < m := by
        have : i.val ≠ m := fun he => him (Fin.ext he)
        omega
      rw [hother i him]
      exact h.rates i hlt

/-- After `m` iterations of the deposit loop the first `m` cached values are backed. -/
structure DepositsPriced (slot : U64) (reserves : Pubkey → Option Reserve) (o o' : Obligation)
    (m : Nat) : Prop where
  bound : m ≤ maxDepositsCountInReserve
  same : SameSlots o o'
  borrows : o'.borrows = o.borrows
  cached : ∀ i : Fin maxDepositsCountInReserve, i.val < m → CacheOk slot reserves o'.deposits[i]

theorem DepositsPriced.step {o₀ : Obligation} (h : DepositsPriced slot reserves o₀ o m)
    (hready : ∀ i : Fin maxDepositsCountInReserve, depositLayout.Live o₀.deposits[i] →
      Ready slot reserves o₀.deposits[i].depositReserve)
    (hstep : priceDeposit reserves accounts o m = .ok o') :
    DepositsPriced slot reserves o₀ o' (m + 1) := by
  unfold priceDeposit at hstep
  split at hstep
  case isFalse => cases hstep
  case isTrue hm =>
    have hkey := h.same.depositKeys ⟨m, hm⟩
    obtain ⟨hsame, hbor, hother, hcache⟩ := priceDepositSlot_current hstep fun hl => by
      rw [hkey]
      refine hready ⟨m, hm⟩ fun hdef => hl ?_
      exact hkey.trans hdef
    refine ⟨hm, h.same.trans hsame, hbor.trans h.borrows, fun i hi => ?_⟩
    by_cases him : i = ⟨m, hm⟩
    · rw [him]
      exact hcache
    · have hlt : i.val < m := by
        have : i.val ≠ m := fun he => him (Fin.ext he)
        omega
      rw [hother i him]
      exact h.cached i hlt

/-- Every reserve of the obligation is accrued to the slot and priced, and the live slots are the
counted prefixes. -/
structure Refreshable (slot : U64) (reserves : Pubkey → Option Reserve) (o : Obligation) :
    Prop where
  borrows : ∀ i : Fin maxBorrowCountInReserve, borrowLayout.Live o.borrows[i] →
    Ready slot reserves o.borrows[i].borrowReserve
  deposits : ∀ i : Fin maxDepositsCountInReserve, depositLayout.Live o.deposits[i] →
    Ready slot reserves o.deposits[i].depositReserve
  borrowsPacked : borrowLayout.Packed o.borrows o.borrowsCount.toNat
  depositsPacked : depositLayout.Packed o.deposits o.depositsCount.toNat

theorem SameSlots.borrowsPacked (h : SameSlots o o')
    (hp : borrowLayout.Packed o.borrows o.borrowsCount.toNat) :
    borrowLayout.Packed o'.borrows o'.borrowsCount.toNat := by
  intro i
  rw [h.borrowsCount]
  refine Iff.trans ?_ (hp i)
  exact not_congr (by rw [show borrowLayout.key o'.borrows[i] = _ from h.borrowKeys i]; rfl)

theorem SameSlots.depositsPacked (h : SameSlots o o')
    (hp : depositLayout.Packed o.deposits o.depositsCount.toNat) :
    depositLayout.Packed o'.deposits o'.depositsCount.toNat := by
  intro i
  rw [h.depositsCount]
  refine Iff.trans ?_ (hp i)
  exact not_congr (by rw [show depositLayout.key o'.deposits[i] = _ from h.depositKeys i]; rfl)

/-- What `refresh_obligation` leaves: the position is current, and any instruction that follows at
once sees every debt. -/
theorem refreshObligation_current {clock : Clock} (h : Refreshable clock.slot reserves o)
    (href : refreshObligation reserves accounts clock o = .ok o') :
    Current clock.slot reserves o' ∧ ∀ op, Visible ⟨reserves, o'⟩ op := by
  simp only [refreshObligation, bind_eq_ok, pure_eq_ok] at href
  obtain ⟨o₁, ho₁, o₂, ho₂, rfl⟩ := href
  -- the borrow loop: what it has priced so far stays priced
  have hb : BorrowsPriced clock.slot reserves o o₁ o.borrowsCount.toNat :=
    foldlM_range_invariant (P := fun m t => BorrowsPriced clock.slot reserves o t m)
      ⟨Nat.zero_le _, .refl o, rfl, fun i hi => absurd hi (Nat.not_lt_zero _)⟩
      (fun m s s' _ hs hstep => hs.step h.borrows hstep) ho₁
  have hready : ∀ i : Fin maxDepositsCountInReserve, depositLayout.Live o₁.deposits[i] →
      Ready clock.slot reserves o₁.deposits[i].depositReserve := by
    rw [hb.deposits]
    exact h.deposits
  -- the deposit loop starts from deposits the first loop has not touched
  have hd : DepositsPriced clock.slot reserves o₁ o₂ o₁.depositsCount.toNat :=
    foldlM_range_invariant (P := fun m t => DepositsPriced clock.slot reserves o₁ t m)
      ⟨Nat.zero_le _, .refl o₁, rfl, fun i hi => absurd hi (Nat.not_lt_zero _)⟩
      (fun m s s' _ hs hstep => hs.step hready hstep) ho₂
  have hsame := hb.same.trans hd.same
  have hpacked := hsame.borrowsPacked h.borrowsPacked
  have hdeposits := hsame.depositsPacked h.depositsPacked
  have hcount : o₂.borrowsCount.toNat = o.borrowsCount.toNat :=
    congrArg BitVec.toNat hsame.borrowsCount
  have hrates : ∀ i : Fin maxBorrowCountInReserve, borrowLayout.Live o₂.borrows[i] →
      i.val < o₂.borrowsCount.toNat ∧ RateOk clock.slot reserves o₂.borrows[i] ∧
        slotDebt reserves o₂.borrows[i] ≤ o₂.borrows[i].marketValueSf.toNat := by
    intro i hl
    have hlt := (hpacked i).mp hl
    rw [hd.borrows]
    exact ⟨hlt, hb.rates i (hcount ▸ hlt)⟩
  refine ⟨⟨fun i hl => (hrates i hl).2.1 hl, fun i hl => ?_, ?_⟩,
    fun op i hl => ⟨?_, (hrates i hl).2.2⟩⟩
  · have hlt := (hdeposits i).mp hl
    rw [hd.same.depositsCount] at hlt
    exact hd.cached i hlt hl
  · exact (hpacked.liveCount_eq (hcount ▸ hb.bound)).symm
  · have hlt := (hrates i hl).1
    unfold countedAtCheck
    split
    case h_1 =>
      split
      case isTrue => exact Nat.lt_succ_of_lt hlt
      case isFalse => exact hlt
    case h_2 => exact hlt

/-! ## Whole slots -/

theorem Current.tx {market : LendingMarket} {clock : Clock} {s : SlotState} (op : SlotOp)
    (h : Current clock.slot s.reserves s.obligation) :
    Current clock.slot (s.tx market clock op).reserves (s.tx market clock op).obligation := by
  let Inv : SlotState → Prop := fun t => Current clock.slot t.reserves t.obligation
  have hkeep : Inv (attemptStep (SlotState.exec market clock) s op) :=
    attemptStep_invariant h fun s' hs' => (current_exec market clock h hs').1
  exact hkeep

/-- Whatever follows a refresh in its slot, a gated instruction that sees every debt leaves the
position covered. -/
theorem covered_of_refresh_run (market : LendingMarket) (clock : Clock)
    (reserves : Pubkey → Option Reserve) (accounts : List Pubkey) (o o' : Obligation)
    (h : Refreshable clock.slot reserves o)
    (href : refreshObligation reserves accounts clock o = .ok o')
    (ops : List SlotOp) (op : SlotOp) (s' : SlotState) (hgated : op.Gated)
    (hvisible : Visible (ops.foldl (SlotState.tx market clock) ⟨reserves, o'⟩) op)
    (hexec : (ops.foldl (SlotState.tx market clock) ⟨reserves, o'⟩).exec market clock op = .ok s') :
    Covered s' := by
  let Inv : SlotState → Prop := fun t => Current clock.slot t.reserves t.obligation
  have hcurrent : Inv (ops.foldl (SlotState.tx market clock) ⟨reserves, o'⟩) :=
    foldl_invariant ops _ (refreshObligation_current h href).1 fun t a _ ht => Current.tx a ht
  exact (current_exec market clock hcurrent hexec).2 hgated hvisible

/-- Two reserves alike, both priced at one and accrued to slot 9. -/
def twoReserves (key : Pubkey) : Option Reserve :=
  if key = .key 3 ∨ key = .key 4 then some (liquidReserve (.key 11) rateScale) else none

/-- 100 cTokens of the first reserve, before any refresh. -/
def unpricedObligation : Obligation :=
  { (Obligation.init (.key 1) (.key 2)).setDeposit 0
      { depositReserve := .key 3, depositedAmount := 100, marketValueSf := 0 } with
    depositsCount := 1 }

/-- The same position after its refresh: the collateral is worth 85. -/
def pricedObligation : Obligation :=
  { unpricedObligation.setDeposit 0
      { depositReserve := .key 3, depositedAmount := 100, marketValueSf := 85 * rateScale } with
    lastUpdate := ⟨9, 900⟩ }

/-- The same reserves, the second with 40 lent out. -/
def lentReserves (key : Pubkey) : Option Reserve :=
  if key = .key 3 then some (liquidReserve (.key 11) rateScale)
  else if key = .key 4 then
    some { liquidReserve (.key 11) rateScale with
      liquidity := { (liquidReserve (.key 11) rateScale).liquidity with
        availableAmount := 60, borrowedAmountSf := 40 } }
  else none

/-- The 100 cTokens with the 40 owed on them, neither valued. -/
def unpricedDebt : Obligation :=
  { unpricedObligation.setBorrow 0
      { borrowReserve := .key 4, borrowedAmountSf := 40 * rateScale
        cumulativeBorrowRateSf := rateScale, marketValueSf := 0 } with
    borrowsCount := 1 }

/-- After the refresh: collateral worth 85, debts worth 40. -/
def pricedDebt : Obligation :=
  { pricedObligation.setBorrow 0
      { borrowReserve := .key 4, borrowedAmountSf := 40 * rateScale
        cumulativeBorrowRateSf := rateScale, marketValueSf := 40 * rateScale } with
    borrowsCount := 1 }

theorem unpricedDebt_refreshable : Refreshable 9 lentReserves unpricedDebt where
  borrows := by
    have hkey : ∀ i : Fin maxBorrowCountInReserve, borrowLayout.Live unpricedDebt.borrows[i] →
        unpricedDebt.borrows[i].borrowReserve = .key 4 := by decide +kernel
    intro i hi
    rw [hkey i hi]
    exact ⟨_, rfl, by decide, by decide⟩
  deposits := by
    have hkey : ∀ i : Fin maxDepositsCountInReserve, depositLayout.Live unpricedDebt.deposits[i] →
        unpricedDebt.deposits[i].depositReserve = .key 3 := by decide +kernel
    intro i hi
    rw [hkey i hi]
    exact ⟨_, rfl, by decide, by decide⟩
  borrowsPacked := by unfold Layout.Packed; decide +kernel
  depositsPacked := by unfold Layout.Packed; decide +kernel

theorem refreshObligation_unpricedDebt :
    refreshObligation lentReserves [.key 3, .key 4] ⟨9, 900⟩ unpricedDebt = .ok pricedDebt := by
  decide +kernel

/-- Deposit 10 more cTokens, repay 20 of the debt, borrow 15 again and another 5 privately: 40 are
owed and 40 cached. -/
def slotRun : List SlotOp :=
  [.depositCollateral ⟨.key 3, by decide⟩ 10, .repay ⟨.key 4, by decide⟩ 20,
    .borrow ⟨.key 4, by decide⟩ 15, .privateBorrow true ⟨.key 4, by decide⟩ 5]

instance (s : SlotState) : Decidable (Covered s) :=
  inferInstanceAs (Decidable (_ ≤ _))

instance (s : SlotState) (op : SlotOp) : Decidable (Visible s op) :=
  inferInstanceAs (Decidable (∀ _ : Fin maxBorrowCountInReserve, _ → _ ∧ _))

/-- Another 30 borrowed after that run leave the position covered. -/
theorem covered_of_refresh_run_thirty : ∃ s',
    (slotRun.foldl (SlotState.tx (.init (.key 1) 0) ⟨9, 900⟩) ⟨lentReserves, pricedDebt⟩).exec
      (.init (.key 1) 0) ⟨9, 900⟩ (.borrow ⟨.key 4, by decide⟩ 30) = .ok s' ∧
    s'.obligation.deposits[0].depositedAmount = 110 ∧
    s'.obligation.borrows[0].borrowedAmountSf = 70 * rateScale ∧ Covered s' := by
  have hrun : ((slotRun.foldl (SlotState.tx (.init (.key 1) 0) ⟨9, 900⟩)
      ⟨lentReserves, pricedDebt⟩).exec (.init (.key 1) 0) ⟨9, 900⟩
        (.borrow ⟨.key 4, by decide⟩ 30)).toOption.any
      (fun s => s.obligation.deposits[0].depositedAmount = 110 ∧
        s.obligation.borrows[0].borrowedAmountSf = 70 * rateScale) = true := by
    decide +kernel
  obtain ⟨s', hexec, hamounts⟩ := toOption_any.mp hrun
  obtain ⟨hdeposit, hdebt⟩ := of_decide_eq_true hamounts
  exact ⟨s', hexec, hdeposit, hdebt,
    covered_of_refresh_run (.init (.key 1) 0) ⟨9, 900⟩ lentReserves [.key 3, .key 4] unpricedDebt
      pricedDebt unpricedDebt_refreshable refreshObligation_unpricedDebt slotRun
      (.borrow ⟨.key 4, by decide⟩ 30) s' trivial (by decide +kernel) hexec⟩

/-- Borrow 50 of the second reserve. -/
def borrowHalf : SlotOp := .borrow ⟨.key 4, by decide⟩ 50

theorem unpricedObligation_refreshable :
    Refreshable 9 twoReserves unpricedObligation where
  borrows := by
    have hnone : ∀ i : Fin maxBorrowCountInReserve,
        ¬ borrowLayout.Live unpricedObligation.borrows[i] := by decide +kernel
    exact fun i hi => absurd hi (hnone i)
  deposits := by
    have hkey : ∀ i : Fin maxDepositsCountInReserve,
        depositLayout.Live unpricedObligation.deposits[i] →
          unpricedObligation.deposits[i].depositReserve = .key 3 := by decide +kernel
    intro i hi
    rw [hkey i hi]
    exact ⟨liquidReserve (.key 11) rateScale, by decide, by decide, by decide⟩
  borrowsPacked := by unfold Layout.Packed; decide +kernel
  depositsPacked := by unfold Layout.Packed; decide +kernel

theorem refreshObligation_unpriced :
    refreshObligation twoReserves [.key 3, .key 4] ⟨9, 900⟩ unpricedObligation =
      .ok pricedObligation := by
  decide +kernel

/-- Borrow 50, borrow 50 again in the same slot: the second check prices the first debt at its
cached zero, and 100 is owed against collateral worth 85. -/
theorem not_forall_covered_of_refresh_run :
    ¬ ∀ (market : LendingMarket) (clock : Clock) (reserves : Pubkey → Option Reserve)
        (accounts : List Pubkey) (o o' : Obligation), Refreshable clock.slot reserves o →
        refreshObligation reserves accounts clock o = .ok o' →
        ∀ (ops : List SlotOp) (op : SlotOp) (s' : SlotState), op.Gated →
          (ops.foldl (SlotState.tx market clock) ⟨reserves, o'⟩).exec market clock op = .ok s' →
          Covered s' := by
  intro hall
  have hbroken : (([borrowHalf].foldl (SlotState.tx (.init (.key 1) 0) ⟨9, 900⟩)
      ⟨twoReserves, pricedObligation⟩).exec (.init (.key 1) 0) ⟨9, 900⟩ borrowHalf).toOption.any
      (fun s => decide (¬ Covered s)) = true := by decide +kernel
  cases hexec : ([borrowHalf].foldl (SlotState.tx (.init (.key 1) 0) ⟨9, 900⟩)
      ⟨twoReserves, pricedObligation⟩).exec (.init (.key 1) 0) ⟨9, 900⟩ borrowHalf with
  | error e =>
      rw [hexec] at hbroken
      cases hbroken
  | ok s' =>
      rw [hexec] at hbroken
      exact of_decide_eq_true hbroken (hall _ _ _ _ _ _ unpricedObligation_refreshable
        refreshObligation_unpriced [borrowHalf] borrowHalf s' trivial hexec)

end Ledger

end VeilVault
