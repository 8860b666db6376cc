/-
# VeilVault.World.Repayable — what borrowers owe a reserve, and what the reserve can be repaid.

As long as every accrual of a reserve keeps pace with its index, the shares of all obligations in
the reserve are covered by the reserve's own, so no repayment that an obligation accepts is more
than the reserve has on its books.  The first accrual that does not keep pace can break this: the
book loses a fraction of a unit that the index keeps.  Each such accrual costs less than a unit at
the index one, so after any run the debts exceed the book by at most one unit for each of them,
grown with the index since.
-/
import VeilVault.World.Indices

namespace VeilVault

open Kit Kit.Outcome

namespace Books

variable (b : Books) (k : Pubkey)

/-- The share of the reserve's book, zero without a reserve. -/
def pool : ℚ := amountIn Reserve.share b.reserves k

/-- The share of one obligation. -/
def shares (x : Pubkey) : ℚ := amountIn (·.shareAt k) b.obligations x

/-- Whether the accruals of a step may lower the pool: one if they do not keep pace. -/
def lapsed (clock : Clock) (accrued : List Pubkey) : ℕ :=
  if k ∈ accrued → (b.reserves k).all (·.keepsPace clock.slot) = true then 0 else 1

/-- At most one obligation's share changes, and the pool allows for it, up to `e`. -/
def DebtGap (b' : Books) (e : ℕ) : Prop :=
  ∃ x, (∀ y, y ≠ x → b'.shares k y = b.shares k y) ∧
    b'.shares k x + b.pool k ≤ b.shares k x + (b'.pool k + e)

variable {b k} {b' : Books} {clock : Clock} {accrued : List Pubkey} {key : Pubkey} {r r' : Reserve}
  {lent repaid : ℚ} {e : ℕ}

theorem lapse_eq_lapsed (hr : b.reserves k = some r) (hk : k ∈ accrued) :
    r.lapse clock.slot = b.lapsed k clock accrued := by
  simp [Reserve.lapse, lapsed, hr, hk]

theorem debt_untouched (ho : b'.obligations = b.obligations) (hp : b.pool k ≤ b'.pool k + e) :
    b.DebtGap k b' e := by
  have hshares (x : Pubkey) : b'.shares k x = b.shares k x := by
    rw [shares, ho, shares]
  exact ⟨default, fun y _ => hshares y, add_le_add (hshares _).le hp⟩

theorem debt_changed {x : Pubkey} {o o' : Obligation} (ho : b.obligations x = some o)
    (ho' : b'.obligations = store b.obligations x o')
    (hgap : o'.shareAt k + b.pool k ≤ o.shareAt k + (b'.pool k + e)) : b.DebtGap k b' e := by
  refine ⟨x, fun y hy => ?_, ?_⟩
  · rw [shares, ho', amountIn_store, if_neg hy, shares]
  · rw [shares, ho', amountIn_store, if_pos rfl, shares, amountIn_of ho]
    exact hgap

theorem pool_same (h : b'.pool k = b.pool k) : b.pool k ≤ b'.pool k + e :=
  h.ge.trans (le_add_of_nonneg_right (Nat.cast_nonneg e))

/-- The books of one reserve, as they stand for the pool. -/
theorem pool_of_reaccrued (hb : b.Ordered) (hr : b.reserves k = some r) (hk : k ∈ accrued)
    (h : Ledger.Reaccrued clock.slot r r' lent repaid) :
    b.pool k + lent ≤ r'.share + b.lapsed k clock accrued + repaid := by
  rw [pool, amountIn_of hr, ← lapse_eq_lapsed hr hk]
  exact h.share_le (hb.index k r hr)

/-- A reserve that is written back after an accrual and a payment. -/
theorem pool_reaccrued (hb : b.Ordered) (hr : b.reserves key = some r)
    (h : Ledger.Reaccrued clock.slot r r' lent repaid) :
    b.pool k + (if k = key then lent else 0) ≤
      amountIn Reserve.share (store b.reserves key r') k + b.lapsed k clock [key] +
        (if k = key then repaid else 0) := by
  rw [amountIn_store]
  by_cases hk : k = key
  · rw [if_pos hk, if_pos hk, if_pos hk]
    exact pool_of_reaccrued hb (hk ▸ hr) (List.mem_singleton.mpr hk) h
  · rw [if_neg hk, if_neg hk, if_neg hk, add_zero, add_zero]
    exact le_add_of_nonneg_right (Nat.cast_nonneg _)

/-- The same for the two reserves of a liquidation. -/
theorem pool_seize {repayKey withdrawKey : Pubkey} {reserves' : Pubkey → Option Reserve}
    {q q' : Reserve} (hb : b.Ordered) (hr : b.reserves repayKey = some r)
    (hbook : Ledger.Reaccrued clock.slot r r' 0 repaid)
    (hother : withdrawKey ≠ repayKey →
      b.reserves withdrawKey = some q ∧ Ledger.Reaccrued clock.slot q q' 0 0)
    (hres : ∀ x, reserves' x = if x = repayKey then some r' else
      if x = withdrawKey then some q' else b.reserves x) :
    b.pool k ≤ amountIn Reserve.share reserves' k + b.lapsed k clock [repayKey, withdrawKey] +
      (if k = repayKey then repaid else 0) := by
  rw [amountIn, hres]
  by_cases hkr : k = repayKey
  · rw [if_pos hkr, if_pos hkr, ← add_zero (b.pool k)]
    exact pool_of_reaccrued hb (hkr ▸ hr) (hkr ▸ List.mem_cons_self) hbook
  · rw [if_neg hkr, if_neg hkr]
    by_cases hkw : k = withdrawKey
    · obtain ⟨hq, hqbook⟩ := hother (hkw ▸ hkr)
      rw [if_pos hkw, ← add_zero (b.pool k)]
      exact pool_of_reaccrued hb (hkw ▸ hq)
        (hkw ▸ List.mem_cons_of_mem _ List.mem_cons_self) hqbook
    · rw [if_neg hkw, add_zero]
      exact le_add_of_nonneg_right (Nat.cast_nonneg _)

/-- Every step moves the pool and the shares in it together, but for what its accruals lapse. -/
theorem Step.debt_gap (hbacked : b.Backed) (hb : b.Ordered) (hk : k.isWallet = false)
    (h : Step clock b accrued b') : b.DebtGap k b' (b.lapsed k clock accrued) := by
  have hne := Pubkey.ne_default hk
  cases h with
  | idle => exact debt_untouched rfl (pool_same rfl)
  | wallet => exact debt_untouched rfl (pool_same rfl)
  | addReserve hmarket hkey hnew hcreate =>
      refine debt_untouched rfl (pool_same ?_)
      exact amountIn_store_new hnew (Reserve.share_create hcreate) k
  -- a change of terms moves neither the debt nor the index
  | updateConfig hr h =>
      refine debt_untouched rfl (pool_same ?_)
      apply amountIn_store_same hr
      rw [Reserve.share, (Reserve.updateConfig_ok h).1, Reserve.share]
  -- interest grows the pool and the index alike, so the shares keep their cover
  | refreshReserve hr h =>
      have hpool := pool_reaccrued (k := k) hb hr (Ledger.reaccrued_refresh h)
      rw [ite_self, add_zero, add_zero] at hpool
      exact debt_untouched rfl hpool
  | deposit hr hsign h =>
      have hpool := pool_reaccrued (k := k) hb hr (Ledger.reaccrued_deposit h)
      rw [ite_self, add_zero, add_zero] at hpool
      exact debt_untouched rfl hpool
  | withdraw hr hsign h =>
      have hpool := pool_reaccrued (k := k) hb hr (Ledger.reaccrued_withdraw h)
      rw [ite_self, add_zero, add_zero] at hpool
      exact debt_untouched rfl hpool
  | @initObligation x owner market hx hnew =>
      refine ⟨x, fun y hy => ?_, add_le_add (le_of_eq ?_) (pool_same rfl)⟩
      · show amountIn _ (store b.obligations x _) y = _
        rw [amountIn_store, if_neg hy, shares]
      · exact amountIn_store_new hnew (Obligation.shareAt_init _ _ hne) x
  | refreshObligation ho h =>
      exact debt_changed ho rfl (add_le_add (Ledger.shareAt_refreshObligation h) (pool_same rfl))
  | depositCollateral ho hkey hsign h =>
      apply debt_changed ho rfl
      rw [Obligation.shareAt_deposit (Pubkey.ne_default hkey) h]
      exact add_le_add_right (pool_same rfl) _
  | withdrawCollateral ho hkey h =>
      apply debt_changed ho rfl
      rw [Ledger.shareAt_withdrawCollateral h]
      exact add_le_add_right (pool_same rfl) _
  -- what is lent enters the pool and the slot together, and leaves both when it is repaid
  | borrow ho hkey hr h =>
      apply debt_changed ho rfl
      have hpool := pool_reaccrued (k := k) hb hr h.reaccrued
      rw [ite_self, add_zero] at hpool
      exact gap_in (h.shareAt (Pubkey.ne_default hkey) hne) hpool
  | repay ho hkey hr hsign h =>
      apply debt_changed ho rfl
      have hpool := pool_reaccrued (k := k) hb hr (Ledger.reaccrued_repay h)
      rw [ite_self, add_zero] at hpool
      exact gap_out (Ledger.shareAt_repay h (Pubkey.ne_default hkey) hne) hpool
  | seize ho hsign h =>
      obtain ⟨r, r', q, q', repaid, hr, hbook, hother, hres, hshare⟩ := Ledger.seize_books h
      apply debt_changed ho rfl
      exact gap_out (hshare (Pubkey.ne_default (hbacked.keys _ r hr)) k hne)
        (pool_seize hb hr hbook hother hres)

/-- Debts that were covered up to `n` units stay so, with one more where the accruals lapse. -/
theorem Step.covers {n : ℕ} (hbacked : b.Backed) (hb : b.Ordered) (hk : k.isWallet = false)
    (hcovers : Covers (b.shares k) (b.pool k + n)) (h : Step clock b accrued b') :
    Covers (b'.shares k) (b'.pool k + (n + b.lapsed k clock accrued : ℕ)) := by
  obtain ⟨x, hother, hgap⟩ := h.debt_gap hbacked hb hk
  have hnonneg : 0 ≤ b'.shares k x := by
    rw [shares, amountIn]
    cases b'.obligations x with
    | none => exact le_refl _
    | some o => exact o.shareAt_nonneg k
  apply hcovers.update hother hnonneg
  push_cast
  linarith

end Books

/-! ## Runs, and the steps of a run that do not keep pace -/

/-- If the instruction accrues the reserve, the accrual keeps pace. -/
def Instruction.KeepsPace (k : Pubkey) (w : World) (ix : Instruction) : Prop :=
  k ∈ ix.accrued → (w.reserves k).all (·.keepsPace w.clock.slot) = true

instance (k : Pubkey) (w : World) (ix : Instruction) : Decidable (ix.KeepsPace k w) :=
  inferInstanceAs (Decidable (_ → _))

/-- The instruction goes through, and its accrual of the reserve does not keep pace. -/
def Instruction.Lapses (mxe : Mxe) (k : Pubkey) (w : World) (ix : Instruction) : Prop :=
  (w.exec mxe ix).isOk = true ∧ ¬ ix.KeepsPace k w

instance (mxe : Mxe) (k : Pubkey) (w : World) (ix : Instruction) : Decidable (ix.Lapses mxe k w) :=
  inferInstanceAs (Decidable (_ ∧ _))

namespace World

variable {w : World} {k : Pubkey} {r : Reserve}

/-- The two statements about a reserve's debts, at the index the reserve has: all obligations
together owe at most what it has booked, and it can take every repayment that an obligation
takes. -/
structure Repayable (w : World) (k : Pubkey) (r : Reserve) : Prop where
  owed : ∀ users : Finset Pubkey, ∑ x ∈ users,
    amountIn (·.owedAt k r.liquidity.cumulativeBorrowRateSf) w.obligations x ≤
      r.liquidity.borrowedAmountSf.toNat
  repaid : ∀ (x : Pubkey) (o o₁ o₂ : Obligation) (i : Fin maxBorrowCountInReserve) (a : U64),
    w.obligations x = some o → o.findBorrow k = .ok i →
    (o.accrueInterest i r.liquidity.cumulativeBorrowRateSf).commit = .ok o₁ →
    (o₁.repay k a.toU128).commit = .ok o₂ →
    checkedSub r.liquidity.borrowedAmountSf a.toU128 ≠ none

/-- Borrowers whose shares are covered by a debt owe together no more than that debt. -/
theorem sum_owedAt_le {i : U128} {D : ℕ} (hpos : 0 < i.toNat)
    (h : Covers (w.books.shares k) (Kit.share D i.toNat)) (users : Finset Pubkey) :
    10 ^ 12 * ∑ x ∈ users, amountIn (·.owedAt k i) w.obligations x ≤ D := by
  have howed (x : Pubkey) : ((10 ^ 12 * amountIn (·.owedAt k i) w.obligations x : ℕ) : ℚ) ≤
      w.books.shares k x * i.toNat := by
    rw [Books.shares, amountIn, amountIn]
    show _ ≤ (w.obligations x).elim 0 _ * _
    cases w.obligations x with
    | none => simp
    | some o => exact o.owedAt_le k _
  have hsum := sum_le_of_covers h howed hpos users
  rwa [← Finset.mul_sum] at hsum

theorem repayable_of_covers (hk : k ≠ default)
    (hpos : 0 < r.liquidity.cumulativeBorrowRateSf.toNat)
    (h : Covers (w.books.shares k) r.share) : w.Repayable k r where
  owed users := by
    have hsum := sum_owedAt_le hpos h users
    rw [Nat.mul_comm] at hsum
    exact Nat.le_of_mul_le_mul_right hsum (by decide)
  repaid x o o₁ o₂ i a ho hf hacc hrep := by
    have hpaid := Ledger.shareAt_accrueRepay hk hk hf hacc hrep
    rw [if_pos rfl] at hpaid
    have hcovered : o.shareAt k ≤ r.share := by
      have ho' : w.books.obligations x = some o := ho
      have hx := h.le x
      rw [Books.shares, amountIn_of ho'] at hx
      exact hx
    have hle : a.toNat * 10 ^ 12 ≤ r.liquidity.borrowedAmountSf.toNat * 10 ^ 12 := by
      apply le_of_share_le hpos
      have hnonneg := o₂.shareAt_nonneg k
      rw [Reserve.share] at hcovered
      linarith
    have ha := Nat.le_of_mul_le_mul_right hle (by decide)
    intro hnone
    rw [checkedSub_eq_none, toNat_toU128] at hnone
    omega

/-- The accruals of an instruction that goes through lower the pool only if it lapses. -/
theorem lapsed_of_ok {mxe : Mxe} {ix : Instruction} {w' : World} (h : w.exec mxe ix = .ok w') :
    w.books.lapsed k w.clock ix.accrued = if ix.Lapses mxe k w then 1 else 0 := by
  have hok : (w.exec mxe ix).isOk = true := by rw [h]; rfl
  by_cases hpace : ix.KeepsPace k w
  · rw [if_neg fun hlapse => hlapse.2 hpace]
    exact if_pos hpace
  · rw [if_pos ⟨hok, hpace⟩]
    exact if_neg hpace

/-- After any run, the reserve's share and one unit for each lapse cover the debts. -/
theorem covers_run (mxe : Mxe) (clock : Clock) (ixs : List Instruction) (hk : k.isWallet = false) :
    Covers ((ixs.foldl (tx mxe) (genesis clock)).books.shares k)
      ((ixs.foldl (tx mxe) (genesis clock)).books.pool k +
        countSteps (tx mxe) (fun w ix => ix.Lapses mxe k w) (genesis clock) ixs) := by
  let Inv : ℕ → World → Prop := fun n w =>
    w.books.Backed ∧ w.books.Ordered ∧ Covers (w.books.shares k) (w.books.pool k + n)
  have hstart : Inv 0 (genesis clock) := by
    refine ⟨backed_run mxe clock [], ordered_run mxe clock [], ?_⟩
    rw [Nat.cast_zero, add_zero]
    exact covers_zero fun _ => rfl
  have hstep : ∀ n w ix, Inv n w →
      Inv (n + if ix.Lapses mxe k w then 1 else 0) (w.tx mxe ix) := by
    intro n w ix ⟨hbacked, hordered, hcovers⟩
    unfold tx attemptStep
    cases h : w.exec mxe ix with
    | error e =>
        refine ⟨hbacked, hordered, hcovers.mono ?_⟩
        gcongr
        exact Nat.le_add_right _ _
    | ok w' =>
        have hexec := exec_step h
        refine ⟨hexec.backed hbacked, hexec.ordered hordered, ?_⟩
        rw [← lapsed_of_ok h]
        exact hexec.covers hbacked hordered hk hcovers
  have hrun := foldl_of_sumSteps hstep ixs 0 _ hstart
  rw [Nat.zero_add] at hrun
  exact hrun.2.2

/-- In every run whose accruals of a reserve all keep pace, its debts stay repayable: at the index
it has, and at the index a repayment in the same slot brings it to, if that accrual keeps pace. -/
theorem repayable_of_keepsPace (mxe : Mxe) (clock : Clock) (ixs : List Instruction) (w : World)
    (k : Pubkey) (r : Reserve)
    (hpace : EachStep (tx mxe) (fun w ix => ix.KeepsPace k w) (genesis clock) ixs)
    (hrun : ixs.foldl (tx mxe) (genesis clock) = w) (hr : w.reserves k = some r) :
    w.Repayable k r ∧ ∀ r₁, r.keepsPace w.clock.slot = true →
      r.accrueInterest w.clock.slot = .ok r₁ → w.Repayable k r₁ := by
  have hbacked : w.books.Backed := hrun ▸ backed_run mxe clock ixs
  have hk := hbacked.keys k r hr
  have hnone : EachStep (tx mxe) (fun w ix => ¬ ix.Lapses mxe k w) (genesis clock) ixs :=
    hpace.imp_mem fun w ix _ hkeeps hlapse => hlapse.2 hkeeps
  have hcovers := covers_run mxe clock ixs hk
  rw [countSteps_eq_zero hnone, hrun, Nat.cast_zero, add_zero] at hcovers
  have hordered : w.books.Ordered := hrun ▸ ordered_run mxe clock ixs
  have hpos : 0 < r.liquidity.cumulativeBorrowRateSf.toNat :=
    Nat.lt_of_lt_of_le (by decide) (hordered.index k r hr)
  have hr' : w.books.reserves k = some r := hr
  rw [Books.pool, amountIn_of hr'] at hcovers
  refine ⟨repayable_of_covers (Pubkey.ne_default hk) hpos hcovers, fun r₁ hkeeps hacc => ?_⟩
  have hle := (Ledger.reaccrued hacc).index_le
  apply repayable_of_covers (Pubkey.ne_default hk) (Nat.lt_of_lt_of_le hpos hle)
  exact hcovers.mono ((Reserve.share_accrueInterest hpos hacc).mpr hkeeps)

/-! ## A whole unit of interest, and six tenths of one -/

/-- A user borrows 1000; at twenty percent a year, 315360 slots make exactly one unit of
interest. -/
def evenRun : List Instruction :=
  openPool ++ join 1 ++ [.borrow (debtOf 1) 1000, .advanceClock ⟨315360, 126144⟩,
    refreshPool 126144]

def evenWorld : World := evenRun.foldl (tx plainMxe) (genesis ⟨0, 0⟩)

theorem repayable_of_keepsPace_even : ∃ r, evenWorld.reserves usdReserve = some r ∧
    r.liquidity.borrowedAmountSf = 1001 ∧ evenWorld.Repayable usdReserve r := by
  have hpace : EachStep (tx plainMxe) (fun w ix => ix.KeepsPace usdReserve w) (genesis ⟨0, 0⟩)
      evenRun := by decide +kernel
  have hsome : (evenWorld.reserves usdReserve).any (fun r => r.liquidity.borrowedAmountSf = 1001) =
      true := by decide +kernel
  obtain ⟨r, hr, hdebt⟩ := (Option.any_eq_true _ _).mp hsome
  exact ⟨r, hr, of_decide_eq_true hdebt,
    (repayable_of_keepsPace plainMxe ⟨0, 0⟩ evenRun evenWorld usdReserve r hpace rfl hr).1⟩

/-- Twice, somebody refreshes the reserve after six tenths of a unit of interest. -/
def driftRun : List Instruction :=
  openPool ++ join 1 ++ [.borrow (debtOf 1) 1000, .advanceClock ⟨189216, 75686⟩,
    refreshPool 75686, .advanceClock ⟨378432, 151372⟩, refreshPool 151372]

def driftWorld : World := driftRun.foldl (tx plainMxe) (genesis ⟨0, 0⟩)

/-- The reserve has booked 1000, and the user owes 1001. -/
theorem not_forall_repayable :
    ¬ ∀ (mxe : Mxe) (clock : Clock) (ixs : List Instruction) (w : World) (k : Pubkey)
        (r : Reserve), ixs.foldl (tx mxe) (genesis clock) = w → w.reserves k = some r →
        w.Repayable k r := by
  intro hall
  have hsome : (driftWorld.reserves usdReserve).any (fun r => r.liquidity.borrowedAmountSf.toNat <
      amountIn (·.owedAt usdReserve r.liquidity.cumulativeBorrowRateSf) driftWorld.obligations
        (.obligation poolMarket (.key 1))) = true := by decide +kernel
  obtain ⟨r, hr, howed⟩ := (Option.any_eq_true _ _).mp hsome
  have hbook := (hall plainMxe ⟨0, 0⟩ driftRun driftWorld usdReserve r rfl hr).owed
    {.obligation poolMarket (.key 1)}
  rw [Finset.sum_singleton] at hbook
  exact absurd (of_decide_eq_true howed) (Nat.not_lt.mpr hbook)

/-! ## How far the books drift apart -/

/-- After any run, the borrowers of a reserve together owe at most what it has booked and, for each
instruction whose accrual did not keep pace, one unit grown by the index. -/
theorem shortfall_bounded (mxe : Mxe) (clock : Clock) (ixs : List Instruction) (w : World)
    (k : Pubkey) (r : Reserve) (users : Finset Pubkey)
    (hrun : ixs.foldl (tx mxe) (genesis clock) = w) (hr : w.reserves k = some r) :
    10 ^ 12 * ∑ x ∈ users,
        amountIn (·.owedAt k r.liquidity.cumulativeBorrowRateSf) w.obligations x ≤
      10 ^ 12 * r.liquidity.borrowedAmountSf.toNat +
        countSteps (tx mxe) (fun w ix => ix.Lapses mxe k w) (genesis clock) ixs *
          r.liquidity.cumulativeBorrowRateSf.toNat := by
  have hbacked : w.books.Backed := hrun ▸ backed_run mxe clock ixs
  have hordered : w.books.Ordered := hrun ▸ ordered_run mxe clock ixs
  have hpos : 0 < r.liquidity.cumulativeBorrowRateSf.toNat :=
    Nat.lt_of_lt_of_le (by decide) (hordered.index k r hr)
  have hr' : w.books.reserves k = some r := hr
  have hcovers := covers_run mxe clock ixs (hbacked.keys k r hr)
  rw [hrun, Books.pool, amountIn_of hr', Reserve.share, ← share_self_mul hpos, ← share_add,
    Nat.mul_comm] at hcovers
  exact sum_owedAt_le hpos hcovers users

/-- Both refreshes lapse, and the user owes one unit more than the reserve has booked. -/
theorem shortfall_bounded_drift : ∃ r, driftWorld.reserves usdReserve = some r ∧
    countSteps (tx plainMxe) (fun w ix => ix.Lapses plainMxe usdReserve w) (genesis ⟨0, 0⟩)
      driftRun = 2 ∧
    10 ^ 12 * ∑ x ∈ {.obligation poolMarket (.key 1)},
        amountIn (·.owedAt usdReserve r.liquidity.cumulativeBorrowRateSf) driftWorld.obligations x ≤
      10 ^ 12 * 1000 + 2 * r.liquidity.cumulativeBorrowRateSf.toNat := by
  have hcount : countSteps (tx plainMxe) (fun w ix => ix.Lapses plainMxe usdReserve w)
      (genesis ⟨0, 0⟩) driftRun = 2 := by decide +kernel
  have hsome : (driftWorld.reserves usdReserve).any (fun r => r.liquidity.borrowedAmountSf = 1000) =
      true := by decide +kernel
  obtain ⟨r, hr, hdebt⟩ := (Option.any_eq_true _ _).mp hsome
  have hbound := shortfall_bounded plainMxe ⟨0, 0⟩ driftRun driftWorld usdReserve r
    {.obligation poolMarket (.key 1)} rfl hr
  rw [hcount, of_decide_eq_true hdebt] at hbound
  exact ⟨r, hr, hcount, hbound⟩

end World

end VeilVault
