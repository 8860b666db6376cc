/-
# VeilVault.Ledger.SlotGate — several gated instructions after one refresh.

`refresh_obligation` caches values; `borrow`, `private_borrow` and `withdraw_collateral` then decide
from the cached values, for as long as the slot lasts.  The machine here is one obligation and the
reserves, in one slot, under any sequence of the five instructions that touch it; a failing
instruction is rolled back.

Cached deposit values stay conservative whatever happens (`Current`), so a successful gate bounds
the debt the gate can *see*.  It does not see a debt whose value was never cached, nor one above the
counter: a second borrow in the same slot is checked against collateral the first one has already
used.  `Visible` says that neither is the case before a gated step, and then the step leaves the
position covered (`covered_of_gated`).
-/
import VeilVault.Kit.Run
import VeilVault.Ledger.BorrowParity
import VeilVault.Ledger.Effects
import VeilVault.Ledger.Quote
import VeilVault.Obligation.Health

namespace VeilVault

open Kit Kit.Outcome

namespace Ledger

/-! ## The machine -/

/-- One obligation and the reserves it may touch. -/
structure SlotState where
  reserves : Pubkey → Option Reserve
  obligation : Obligation

/-- The instructions on one obligation that a slot may contain. -/
inductive SlotOp
  | borrow (key : ReserveKey) (amount : U64)
  | privateBorrow (isInitialized : Bool) (key : ReserveKey) (amount : U64)
  | repay (key : ReserveKey) (amount : U64)
  | depositCollateral (key : ReserveKey) (amount : U64)
  | withdrawCollateral (key : ReserveKey) (amount : U64)

namespace SlotOp

/-- The instructions that check health. -/
def Gated : SlotOp → Prop
  | .borrow .. | .privateBorrow .. | .withdrawCollateral .. => True
  | .repay .. | .depositCollateral .. => False

/-- The reserve a borrowing instruction draws from. -/
def borrowKey : SlotOp → Option Pubkey
  | .borrow k _ | .privateBorrow _ k _ => some k.1
  | _ => none

end SlotOp

variable (market : LendingMarket) (clock : Clock)

def SlotState.exec (s : SlotState) : SlotOp → Result SlotState
  | .borrow k a => do
      let reserve ← load s.reserves k.1
      let (reserve, obligation) ← borrow market clock k.1 reserve s.obligation a
      return ⟨store s.reserves k.1 reserve, obligation⟩
  | .privateBorrow init k a => do
      let reserve ← load s.reserves k.1
      let (reserve, obligation) ← privateBorrow market init clock k.1 reserve s.obligation a
      return ⟨store s.reserves k.1 reserve, obligation⟩
  | .repay k a => do
      let reserve ← load s.reserves k.1
      let (reserve, obligation) ← repay clock k.1 reserve s.obligation a
      return ⟨store s.reserves k.1 reserve, obligation⟩
  | .depositCollateral k a => do
      let reserve ← load s.reserves k.1
      let obligation ← depositCollateral market k.1 reserve s.obligation a
      return { s with obligation }
  | .withdrawCollateral k a => do
      let _ ← load s.reserves k.1
      let obligation ← withdrawCollateral market clock k.1 s.obligation a
      return { s with obligation }

/-- A transaction: the instruction's result, or the old state when it fails. -/
def SlotState.tx (s : SlotState) (op : SlotOp) : SlotState :=
  attemptStep (SlotState.exec market clock) s op

/-! ## The claim and the condition -/

/-- The current value of one borrow slot. -/
def slotDebt (reserves : Pubkey → Option Reserve) (b : ObligationLiquidity) : ℕ :=
  if borrowLayout.Live b then
    (reserves b.borrowReserve).elim 0 fun r => r.quote.debtValue b.borrowedAmountSf.toNat
  else 0

/-- The current value of one deposit slot, plus one underlying unit. -/
def slotCover (reserves : Pubkey → Option Reserve) (c : ObligationCollateral) : ℕ :=
  if depositLayout.Live c then
    (reserves c.depositReserve).elim 0 fun r =>
      r.quote.depositValue c.depositedAmount.toNat + r.quote.unitValue
  else 0

/-- Everything owed is worth at most everything deposited, up to one unit per deposit slot. -/
def Covered (s : SlotState) : Prop :=
  ∑ i : Fin maxBorrowCountInReserve, slotDebt s.reserves s.obligation.borrows[i] ≤
    ∑ i : Fin maxDepositsCountInReserve, slotCover s.reserves s.obligation.deposits[i]

/-- How many borrow slots the health check of an instruction will read. -/
def countedAtCheck (s : SlotState) (op : SlotOp) : ℕ :=
  match op.borrowKey with
  | some k =>
      if ∀ j : Fin maxBorrowCountInReserve, s.obligation.borrows[j].borrowReserve ≠ k then
        s.obligation.borrowsCount.toNat + 1
      else s.obligation.borrowsCount.toNat
  | none => s.obligation.borrowsCount.toNat

/-- Every live debt is counted when the instruction checks health, and its cached value covers it
at the current price. -/
def Visible (s : SlotState) (op : SlotOp) : Prop :=
  ∀ i : Fin maxBorrowCountInReserve, borrowLayout.Live s.obligation.borrows[i] →
    i.val < countedAtCheck s op ∧
    slotDebt s.reserves s.obligation.borrows[i] ≤ s.obligation.borrows[i].marketValueSf.toNat

/-! ## What stays current -/

variable {slot : U64} {reserves : Pubkey → Option Reserve} {k key : Pubkey} {P : Quote → Prop}
  {r r₁ r₂ : Reserve} {o o₁ o₂ : Obligation} {a : U64}

/-- The reserve at `key` is accrued to the slot and its quote satisfies `P`. -/
def QuoteHolds (slot : U64) (reserves : Pubkey → Option Reserve) (key : Pubkey)
    (P : Quote → Prop) : Prop :=
  ∃ r, reserves key = some r ∧ slot.toNat ≤ r.lastUpdateSlot.toNat ∧ P r.quote

/-- A live debt stands at its reserve's current index. -/
def RateOk (slot : U64) (reserves : Pubkey → Option Reserve) (b : ObligationLiquidity) : Prop :=
  borrowLayout.Live b →
    QuoteHolds slot reserves b.borrowReserve fun q => q.rate = b.cumulativeBorrowRateSf

/-- A live deposit's cached value is backed by its current amount. -/
def CacheOk (slot : U64) (reserves : Pubkey → Option Reserve) (c : ObligationCollateral) : Prop :=
  depositLayout.Live c → c.marketValueSf.toNat = 0 ∨
    QuoteHolds slot reserves c.depositReserve fun q =>
      q.Backs c.depositedAmount.toNat c.marketValueSf.toNat

/-- What every instruction of the slot keeps. -/
structure Current (slot : U64) (reserves : Pubkey → Option Reserve) (o : Obligation) : Prop where
  rates : ∀ i : Fin maxBorrowCountInReserve, RateOk slot reserves o.borrows[i]
  cached : ∀ i : Fin maxDepositsCountInReserve, CacheOk slot reserves o.deposits[i]
  counted : o.borrowsCount.toNat = borrowLayout.liveCount o.borrows

theorem Current.count_le (h : Current slot reserves o) : o.borrowsCount.toNat ≤ 8 :=
  h.counted ▸ Layout.liveCount_le

/-- `r'` replaces the reserve at `k` by an accrued one, with the same quote if it was accrued. -/
def Settles (slot : U64) (reserves : Pubkey → Option Reserve) (k : Pubkey) (r' : Reserve) : Prop :=
  ∃ r, reserves k = some r ∧ slot.toNat ≤ r'.lastUpdateSlot.toNat ∧
    (slot.toNat ≤ r.lastUpdateSlot.toNat → r'.quote = r.quote)

theorem QuoteHolds.stored {r' : Reserve} (h : QuoteHolds slot reserves key P)
    (hs : Settles slot reserves k r') : QuoteHolds slot (store reserves k r') key P := by
  obtain ⟨r, hr, hacc, hP⟩ := h
  obtain ⟨r₀, hr₀, hacc', hquote⟩ := hs
  by_cases hk : key = k
  · subst hk
    obtain rfl := Option.some.inj (hr.symm.trans hr₀)
    exact ⟨r', if_pos rfl, hacc', by rw [hquote hacc]; exact hP⟩
  · exact ⟨r, (if_neg hk).trans hr, hacc, hP⟩

theorem Current.stored {r' : Reserve} (h : Current slot reserves o)
    (hs : Settles slot reserves k r') : Current slot (store reserves k r') o where
  rates := fun i hi => (h.rates i hi).stored hs
  cached := fun i hi => (h.cached i hi).imp_right fun hq => hq.stored hs
  counted := h.counted

theorem settles_of {r' : Reserve} (hr : reserves k = some r)
    (hacc : r.accrueInterest slot = .ok r₁) (hkeep : r₁.KeepsTerms r') :
    Settles slot reserves k r' := by
  refine ⟨r, hr, hkeep.lastUpdateSlot ▸ (Reserve.accrues_of_ok hacc).slot_le, fun hcur => ?_⟩
  rw [Reserve.accrueInterest_current hcur] at hacc
  cases hacc
  exact hkeep.quote

/-- In the slot, growing a live debt to its reserve's index changes nothing. -/
theorem Current.accrue_slot (h : Current slot reserves o) {i : Fin maxBorrowCountInReserve}
    {r' : Reserve} (hlive : borrowLayout.Live o.borrows[i]) (hi : o.borrows[i].borrowReserve = k)
    (hs : Settles slot reserves k r')
    (hacc : (o.accrueInterest i r'.liquidity.cumulativeBorrowRateSf).commit = .ok o₁) : o₁ = o := by
  have hq := h.rates i hlive
  rw [hi] at hq
  obtain ⟨r₀, hr₀, -, hrate⟩ := hq.stored hs
  rw [store, if_pos rfl] at hr₀
  cases hr₀
  rcases Obligation.accrueInterest_ok hacc with rfl | ⟨-, hlt, -⟩
  · rfl
  · rw [← hrate] at hlt
    exact absurd hlt (Nat.lt_irrefl _)

theorem Current.accrueExisting (h : Current slot reserves o) {r' : Reserve} (hk : k ≠ default)
    (hs : Settles slot reserves k r')
    (hacc : o.accrueExisting k r'.liquidity.cumulativeBorrowRateSf = .ok o₁) : o₁ = o := by
  unfold Obligation.accrueExisting at hacc
  cases hf : o.findBorrow k with
  | error e =>
      rw [hf] at hacc
      cases hacc
      rfl
  | ok i =>
      rw [hf] at hacc
      have hi := (Obligation.findBorrow_eq_ok.mp hf).1
      exact h.accrue_slot (Obligation.borrow_live hk hi) hi hs hacc

/-! ## One instruction -/

theorem Current.borrow {x c : U128} (h : Current slot reserves o) (hk : k ≠ default)
    (hrate : QuoteHolds slot reserves k fun q => q.rate = c)
    (hb : (o.borrow k x c).commit = .ok o₂) : Current slot reserves o₂ := by
  have hmove := Obligation.after_borrows o (.borrow ⟨k, hk⟩ x c) h.count_le
  rw [Obligation.after_of_commit (c := .borrow ⟨k, hk⟩ x c) hb] at hmove
  obtain ⟨-, ⟨i, d, hi, hd, rfl⟩ | ⟨i, d, hnew, hi, hfirst, hd, rfl⟩⟩ :=
    Obligation.borrow_ok hk hb
  · exact ⟨forall_set h.rates (h.rates i), h.cached, hmove.liveCount h.counted⟩
  · exact ⟨forall_set h.rates fun _ => hrate, h.cached, hmove.liveCount h.counted⟩

theorem Current.repay {x : U128} (h : Current slot reserves o) (hk : k ≠ default)
    (hb : (o.repay k x).commit = .ok o₂) : Current slot reserves o₂ := by
  have hmove := Obligation.after_borrows o (.repay ⟨k, hk⟩ x) h.count_le
  rw [Obligation.after_of_commit (c := .repay ⟨k, hk⟩ x) hb] at hmove
  obtain ⟨-, i, hf, left, hleft, ⟨-, rfl⟩ | rfl⟩ := Obligation.repay_ok hb
  · exact ⟨forall_set h.rates fun hl => absurd hl borrowLayout_default, h.cached,
      hmove.liveCount h.counted⟩
  · exact ⟨forall_set h.rates (h.rates i), h.cached, hmove.liveCount h.counted⟩

theorem Current.deposit (h : Current slot reserves o) (hk : k ≠ default)
    (hd : (o.deposit k a).commit = .ok o₂) : Current slot reserves o₂ := by
  obtain ⟨-, ⟨i, d, hi, hd, rfl⟩ | ⟨i, hi, rfl⟩⟩ := Obligation.deposit_ok hk hd
  · refine ⟨h.rates, forall_set h.cached fun hl => ?_, h.counted⟩
    refine (h.cached i hl).imp_right fun ⟨r, hr, hacc, hbacks⟩ => ⟨r, hr, hacc, ?_⟩
    exact hbacks.mono (by simp only; omega)
  · exact ⟨h.rates, forall_set h.cached fun _ => .inl rfl, h.counted⟩

/-- The slot that `withdraw_collateral` leaves: its value shrank with its amount. -/
theorem CacheOk.shrink {c : ObligationCollateral} {m : U128} {left : U64}
    (h : CacheOk slot reserves c) (hpos : 0 < c.depositedAmount.toNat)
    (hm : m.toNat = c.marketValueSf.toNat * left.toNat / c.depositedAmount.toNat) :
    CacheOk slot reserves { c with marketValueSf := m, depositedAmount := left } := by
  intro hl
  rcases h hl with hz | ⟨r, hr, hacc, hbacks⟩
  · left
    simp only
    rw [hm, hz, Nat.zero_mul, Nat.zero_div]
  · refine .inr ⟨r, hr, hacc, ?_⟩
    simp only [hm]
    exact hbacks.scale hpos

theorem Current.withdrawCollateral (h : Current slot reserves o)
    (hw : Ledger.withdrawCollateral market clock k o a = .ok o₂) :
    Current slot reserves o₂ ∧ o₂.borrows = o.borrows ∧ o₂.borrowsCount = o.borrowsCount ∧
      o₂.withdrawHealthCheck = .ok () := by
  obtain ⟨i, m, hf, hm, hwd, hcheck⟩ := withdrawCollateral_ok hw
  obtain ⟨ha, j, hj, hcase⟩ := Obligation.withdraw_ok hwd
  have hij := Obligation.findDeposit_setDeposit (c := { o.deposits[i] with marketValueSf := m })
    hf (Obligation.findDeposit_eq_ok.mp hf).1
  obtain rfl : j = i := Except.ok.inj (hj.symm.trans hij)
  rw [Obligation.setDeposit_deposits, getElem_set_fin_self] at hcase
  have hpos : 0 < o.deposits[j].depositedAmount.toNat := by
    rcases hcase with ⟨hall, -⟩ | ⟨left, -, hleft, -⟩
    · have hall' : o.deposits[j].depositedAmount.toNat = a.toNat := hall
      omega
    · have hleft' : left.toNat + a.toNat = o.deposits[j].depositedAmount.toNat := hleft
      omega
  rw [Nat.max_eq_left hpos] at hm
  rcases hcase with ⟨hall, rfl⟩ | ⟨left, hpl, hleft, rfl⟩
  · refine ⟨⟨h.rates, ?_, h.counted⟩, rfl, rfl, hcheck⟩
    simp only [Obligation.clearedDeposit, Obligation.setDeposit, Vector.set_set]
    exact forall_set h.cached fun hl => absurd hl depositLayout_default
  · refine ⟨⟨h.rates, ?_, h.counted⟩, rfl, rfl, hcheck⟩
    simp only [Obligation.setDeposit, Vector.set_set]
    have hsame : o.deposits[j].depositedAmount.toNat - a.toNat = left.toNat := by
      simp only at hleft
      omega
    rw [hsame] at hm
    exact forall_set h.cached ((h.cached j).shrink hpos hm)

/-! ## Gates -/

/-- Deposits are worth at least their cached values, up to one unit each. -/
theorem Current.depositSum_le (h : Current slot reserves o) :
    o.depositSum ≤ ∑ i : Fin maxDepositsCountInReserve, slotCover reserves o.deposits[i] := by
  rw [Obligation.depositSum_eq]
  refine Finset.sum_le_sum fun i _ => ?_
  split
  case isTrue hact =>
    have hl := depositLayout_live.mpr hact
    rw [slotCover, if_pos hl]
    rcases h.cached i hl with hz | ⟨r, hr, -, hbacks⟩
    · omega
    · rw [hr]
      exact hbacks.le
  case isFalse => exact Nat.zero_le _

theorem slotDebt_store {r' : Reserve} {b : ObligationLiquidity} (h : RateOk slot reserves b)
    (hs : Settles slot reserves k r') :
    slotDebt (store reserves k r') b = slotDebt reserves b := by
  unfold slotDebt
  split
  case isTrue hl =>
    obtain ⟨r₀, hr₀, hacc, -⟩ := h hl
    obtain ⟨r₁, hr₁, -, hquote⟩ :=
      QuoteHolds.stored (P := fun q => q = r₀.quote) ⟨r₀, hr₀, hacc, rfl⟩ hs
    rw [hr₀, hr₁, Option.elim_some, Option.elim_some, hquote]
  case isFalse => rfl

/-- What is visible is bounded by the cached debts. -/
theorem Visible.sum_le {op : SlotOp} (h : Visible ⟨reserves, o⟩ op) :
    ∑ i : Fin maxBorrowCountInReserve, slotDebt reserves o.borrows[i] ≤ o.borrowSum := by
  rw [Obligation.borrowSum_eq]
  refine Finset.sum_le_sum fun i _ => ?_
  by_cases hl : borrowLayout.Live o.borrows[i]
  · rw [if_pos (borrowLayout_live.mp hl)]
    exact (h i hl).2
  · rw [slotDebt, if_neg hl]
    exact Nat.zero_le _

theorem slotDebt_of {r' : Reserve} {b : ObligationLiquidity} (hk : k ≠ default)
    (hb : b.borrowReserve = k) :
    slotDebt (store reserves k r') b = r'.quote.debtValue b.borrowedAmountSf.toNat := by
  have hl : borrowLayout.Live b := fun h => hk (hb.symm.trans h)
  rw [slotDebt, if_pos hl, hb, store, if_pos rfl, Option.elim_some]

/-- One written borrow slot: the debts grow by `n`, the cached values do not move. -/
theorem sums_set {i : Fin maxBorrowCountInReserve} {b : ObligationLiquidity} {n : ℕ}
    (hb : borrowLayout.Live b) (hcache : b.marketValueSf.toNat =
      if o.borrows[i].isActive then o.borrows[i].marketValueSf.toNat else 0)
    (hdebt : slotDebt reserves b = slotDebt reserves o.borrows[i] + n)
    (ho : o₂.borrows = o.borrows.set i b i.isLt) :
    ∑ j : Fin maxBorrowCountInReserve, slotDebt reserves o₂.borrows[j] =
        ∑ j : Fin maxBorrowCountInReserve, slotDebt reserves o.borrows[j] + n ∧
      o₂.borrowSum = o.borrowSum := by
  have hsum := sum_set (slotDebt reserves) o.borrows i b
  have hval := sum_set (fun b : ObligationLiquidity =>
    if b.isActive then b.marketValueSf.toNat else 0) o.borrows i b
  rw [if_pos (borrowLayout_live.mp hb), hcache] at hval
  rw [Obligation.borrowSum_eq, Obligation.borrowSum_eq]
  simp only [ho]
  omega

/-- A borrow adds the new loan to the debts, and moves no cached value. -/
theorem sums_borrow {r' : Reserve} {c : U128} (hk : k ≠ default)
    (hb : (o.borrow k a.toU128 c).commit = .ok o₂) :
    ∑ j : Fin maxBorrowCountInReserve, slotDebt (store reserves k r') o₂.borrows[j] =
        ∑ j : Fin maxBorrowCountInReserve, slotDebt (store reserves k r') o.borrows[j] +
          a.toNat * r'.quote.price ∧
      o₂.borrowSum = o.borrowSum := by
  obtain ⟨-, ⟨i, d, hi, hd, rfl⟩ | ⟨i, d, -, hi, -, hd, rfl⟩⟩ := Obligation.borrow_ok hk hb
  -- a second loan of the reserve lands in the slot it has
  · have hl := Obligation.borrow_live hk hi
    refine sums_set (b := { o.borrows[i] with borrowedAmountSf := d }) hl ?_ ?_ rfl
    · rw [if_pos (borrowLayout_live.mp hl)]
    · rw [slotDebt_of hk hi]
      refine (slotDebt_of (b := { o.borrows[i] with borrowedAmountSf := d }) hk hi).trans ?_
      simp only [hd, toNat_toU128]
      exact Quote.debtValue_add _ _ _
  · refine sums_set (i := i) (b := { ObligationLiquidity.init k c with borrowedAmountSf := d }) hk
      ?_ ?_ rfl
    · rw [if_neg (borrowLayout_live.not.mp hi)]
      rfl
    · have hfree : slotDebt (store reserves k r') o.borrows[i] = 0 := if_neg hi
      rw [hfree, Nat.zero_add]
      refine (slotDebt_of hk rfl).trans ?_
      simp only [hd, toNat_toU128, Quote.debtValue]
      rw [Nat.mul_div_cancel _ (by decide)]

/-- The slot a borrow writes: every taken slot stays counted, the debts grow by the new one at the
reserve's own index, and no cached value moves. -/
theorem Current.borrow_sums {op : SlotOp} {r' : Reserve} (h : Current slot reserves o)
    (hk : k ≠ default) (hop : op.borrowKey = some k) (hvis : Visible ⟨reserves, o⟩ op)
    (hb : (o.borrow k a.toU128 r'.liquidity.cumulativeBorrowRateSf).commit = .ok o₂) :
    borrowLayout.Counted o₂.borrows o₂.borrowsCount.toNat ∧
      ∑ j : Fin maxBorrowCountInReserve, slotDebt (store reserves k r') o₂.borrows[j] =
        ∑ j : Fin maxBorrowCountInReserve, slotDebt (store reserves k r') o.borrows[j] +
          a.toNat * r'.quote.price ∧
      o₂.borrowSum = o.borrowSum := by
  refine ⟨fun j hj => ?_, sums_borrow hk hb⟩
  obtain ⟨-, ⟨i, d, hi, hd, rfl⟩ | ⟨i, d, hnew, hi, hfirst, hd, rfl⟩⟩ :=
    Obligation.borrow_ok hk hb
  · have hj' : borrowLayout.Live o.borrows[j] := by
      rw [Obligation.setBorrow_borrows, getElem_set_fin] at hj
      split at hj
      case isTrue he => exact he ▸ Obligation.borrow_live hk hi
      case isFalse => exact hj
    have hlt := (hvis j hj').1
    rw [countedAtCheck, hop] at hlt
    simp only at hlt
    rwa [if_neg fun hall => hall i hi] at hlt
  -- a first loan opens the slot after the prefix, which the check counts already
  · have hcount : (o.openedBorrow i k r'.liquidity.cumulativeBorrowRateSf d).borrowsCount.toNat =
        o.borrowsCount.toNat + 1 := Obligation.toNat_count_succ h.count_le
    rw [hcount]
    by_cases hij : i = j
    · have := Layout.le_liveCount hfirst
      rw [← h.counted, hij] at this
      omega
    · have hj' : borrowLayout.Live o.borrows[j] := by
        have hset : (o.openedBorrow i k r'.liquidity.cumulativeBorrowRateSf d).borrows[j] =
            o.borrows[j] := getElem_set_fin_ne _ _ hij
        rwa [hset] at hj
      have hlt := (hvis j hj').1
      rw [countedAtCheck, hop] at hlt
      simp only at hlt
      rwa [if_pos hnew] at hlt

/-- A borrow of either kind keeps the position current, and covered if every debt was visible. -/
theorem Current.privateBorrow {init : Bool} {r' : Reserve}
    (h : Current clock.slot reserves o) (hk : k ≠ default) (hr : reserves k = some r)
    (hb : Ledger.privateBorrow market init clock k r o a = .ok (r', o₂)) :
    Current clock.slot (store reserves k r') o₂ ∧
    ∀ op : SlotOp, op.borrowKey = some k → Visible ⟨reserves, o⟩ op →
      Covered ⟨store reserves k r', o₂⟩ := by
  obtain ⟨⟨r₁, o₁, hacc, hrb, ho₁, ho₂⟩, hgate⟩ := privateBorrow_ok hb
  have hs := settles_of hr hacc (Reserve.keepsTerms_of_borrow hrb)
  obtain rfl := h.accrueExisting hk hs ho₁
  have hstore := h.stored hs
  have hrate : QuoteHolds clock.slot (store reserves k r') k
      fun q => q.rate = r'.liquidity.cumulativeBorrowRateSf := by
    obtain ⟨-, -, hslot, -⟩ := hs
    exact ⟨r', if_pos rfl, hslot, rfl⟩
  have hcur := hstore.borrow hk hrate ho₂
  refine ⟨hcur, fun op hop hvis => ?_⟩
  have hbefore : ∑ i : Fin maxBorrowCountInReserve,
      slotDebt (store reserves k r') o₁.borrows[i] ≤ o₁.borrowSum :=
    (Finset.sum_le_sum fun i _ => (slotDebt_store (h.rates i) hs).le).trans hvis.sum_le
  -- the new debt is priced inline, so both kinds of slot end at the same bound
  obtain ⟨hcount, hdebt, hsum⟩ := h.borrow_sums hk hop hvis ho₂
  have hbound := Obligation.inlineHealthCheck_le hcount hgate
  rw [hsum] at hbound
  calc ∑ j : Fin maxBorrowCountInReserve, slotDebt (store reserves k r') o₂.borrows[j]
      ≤ o₁.borrowSum + a.toNat * r'.quote.price := by
        rw [hdebt]
        exact Nat.add_le_add_right hbefore _
    _ ≤ o₂.depositSum := hbound
    _ ≤ _ := hcur.depositSum_le

/-- Every instruction of the slot keeps the position current, and a gated one that sees every debt
leaves it covered. -/
theorem current_exec {s s' : SlotState} {op : SlotOp}
    (h : Current clock.slot s.reserves s.obligation) (hexec : s.exec market clock op = .ok s') :
    Current clock.slot s'.reserves s'.obligation ∧ (op.Gated → Visible s op → Covered s') := by
  obtain ⟨reserves, o⟩ := s
  cases op with
  | borrow k a =>
      simp only [SlotState.exec, bind_eq_ok, load_eq_ok, pure_eq_ok, Prod.exists] at hexec
      obtain ⟨r, hr, r', o₂, hb, rfl⟩ := hexec
      have hboth := h.privateBorrow market clock k.2 hr (borrow_iff_privateBorrow.mp hb).1
      exact ⟨hboth.1, fun _ => hboth.2 _ rfl⟩
  | privateBorrow init k a =>
      simp only [SlotState.exec, bind_eq_ok, load_eq_ok, pure_eq_ok, Prod.exists] at hexec
      obtain ⟨r, hr, r', o₂, hb, rfl⟩ := hexec
      have hboth := h.privateBorrow market clock k.2 hr hb
      exact ⟨hboth.1, fun _ => hboth.2 _ rfl⟩
  | repay k a =>
      simp only [SlotState.exec, bind_eq_ok, load_eq_ok, pure_eq_ok, Prod.exists] at hexec
      obtain ⟨r, hr, r', o₂, hb, rfl⟩ := hexec
      obtain ⟨r₁, i, o₁, hacc, hrep, hf, ho₁, ho₂⟩ := repay_ok hb
      have hkeep := Reserve.keepsTerms_of_repay hrep
      have hs := settles_of hr hacc hkeep
      have hi := (Obligation.findBorrow_eq_ok.mp hf).1
      rw [← hkeep.rate] at ho₁
      obtain rfl := h.accrue_slot (Obligation.borrow_live k.2 hi) hi hs ho₁
      -- a repayment checks nothing, so only currency is left to keep
      exact ⟨(h.stored hs).repay k.2 ho₂, fun hg => hg.elim⟩
  | depositCollateral k a =>
      simp only [SlotState.exec, bind_eq_ok, load_eq_ok, pure_eq_ok] at hexec
      obtain ⟨r, hr, o₂, hd, rfl⟩ := hexec
      exact ⟨h.deposit k.2 (depositCollateral_ok hd), fun hg => hg.elim⟩
  | withdrawCollateral k a =>
      simp only [SlotState.exec, bind_eq_ok, load_eq_ok, pure_eq_ok] at hexec
      obtain ⟨r, hr, o₂, hw, rfl⟩ := hexec
      obtain ⟨hcur, hborrows, hcount, hgate⟩ := h.withdrawCollateral market clock hw
      -- the debts are untouched, and the check has compared them with the deposits that are left
      refine ⟨hcur, fun _ hvis => ?_⟩
      have hcounted : borrowLayout.Counted o₂.borrows o₂.borrowsCount.toNat := by
        rw [hborrows, hcount]
        exact fun i hi => (hvis i hi).1
      have hsum : o₂.borrowSum = o.borrowSum := by
        rw [Obligation.borrowSum, Obligation.borrowSum, hborrows]
      calc ∑ i : Fin maxBorrowCountInReserve, slotDebt reserves o₂.borrows[i]
          = ∑ i : Fin maxBorrowCountInReserve, slotDebt reserves o.borrows[i] := by
            rw [hborrows]
        _ ≤ o₂.borrowSum := hsum ▸ hvis.sum_le
        _ ≤ o₂.depositSum := Obligation.withdrawHealthCheck_le hcounted hgate
        _ ≤ _ := hcur.depositSum_le

end Ledger

end VeilVault
