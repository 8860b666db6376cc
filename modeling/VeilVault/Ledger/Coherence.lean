/-
# VeilVault.Ledger.Coherence — caches after a liquidation.

`health_factor` adds up cached values.  `withdraw_collateral` scales the value of the slot it draws
on; `liquidate` changes the amounts of two slots and leaves both values as the refresh wrote them.
So each value is as much too high as what was taken from its slot since is worth.  This file
compares cached values with what a refresh would write now (`worth`), slot by slot, and says which
liquidations keep the difference within one atomic unit.
-/
import VeilVault.Ledger.Valuation

namespace VeilVault

open Kit Kit.Outcome

/-- What valuation reads of the reserves. -/
def quotes (reserves : Pubkey → Option Reserve) (k : Pubkey) : Option Quote :=
  (reserves k).map Reserve.quote

theorem quotes_eq_some {reserves : Pubkey → Option Reserve} {k : Pubkey} {r : Reserve}
    (h : reserves k = some r) : quotes reserves k = some r.quote := by
  rw [quotes, h, Option.map_some]

theorem quotes_store {reserves : Pubkey → Option Reserve} {k : Pubkey} {r r' : Reserve}
    (h : reserves k = some r) (hquote : r'.quote = r.quote) :
    quotes (store reserves k r') = quotes reserves := by
  funext x
  by_cases hx : x = k
  · rw [hx, quotes, store_self, Option.map_some, hquote, quotes_eq_some h]
  · rw [quotes, store_of_ne _ _ hx, quotes]

/-! ## What a refresh would write -/

variable {qs : Pubkey → Option Quote}

namespace ObligationCollateral

/-- The value a refresh would give the slot; without a price it keeps its own. -/
def worth (qs : Pubkey → Option Quote) (c : ObligationCollateral) : ℕ :=
  match qs c.depositReserve with
  | some q => if q.price = 0 then c.marketValueSf.toNat else q.depositValue c.depositedAmount.toNat
  | none => c.marketValueSf.toNat

/-- The value of one atomic unit. -/
def unit (qs : Pubkey → Option Quote) (c : ObligationCollateral) : ℕ :=
  (qs c.depositReserve).elim 0 Quote.unitValue

/-- The cached value is current up to one unit, and never too low. -/
def Coherent (qs : Pubkey → Option Quote) (c : ObligationCollateral) : Prop :=
  c.worth qs ≤ c.marketValueSf.toNat ∧ c.marketValueSf.toNat ≤ c.worth qs + c.unit qs

variable {c : ObligationCollateral} {k : Pubkey} {q : Quote}

theorem worth_of_quote (hk : c.depositReserve = k) (h : qs k = some q) (hpos : q.price ≠ 0) :
    c.worth qs = q.depositValue c.depositedAmount.toNat := by
  rw [worth, hk, h]
  exact if_neg hpos

theorem unit_of_quote (hk : c.depositReserve = k) (h : qs k = some q) :
    c.unit qs = q.unitValue := by
  rw [unit, hk, h, Option.elim_some]

theorem coherent_of_quote (hk : c.depositReserve = k) (h : qs k = some q) (hpos : q.price ≠ 0)
    (hle : q.depositValue c.depositedAmount.toNat ≤ c.marketValueSf.toNat)
    (hunit : c.marketValueSf.toNat ≤ q.depositValue c.depositedAmount.toNat + q.unitValue) :
    c.Coherent qs := by
  rw [Coherent, worth_of_quote hk h hpos, unit_of_quote hk h]
  exact ⟨hle, hunit⟩

end ObligationCollateral

namespace ObligationLiquidity

/-- The value a refresh would give the slot, after bringing the debt to the index. -/
def worth (qs : Pubkey → Option Quote) (b : ObligationLiquidity) : ℕ :=
  match qs b.borrowReserve with
  | some q => if q.price = 0 then b.marketValueSf.toNat else q.debtValue (b.debtAt q.rate)
  | none => b.marketValueSf.toNat

/-- The value of one atomic unit. -/
def unit (qs : Pubkey → Option Quote) (b : ObligationLiquidity) : ℕ :=
  (qs b.borrowReserve).elim 0 Quote.price

/-- The same for a debt, which moreover stands at the index of a priced reserve. -/
def Coherent (qs : Pubkey → Option Quote) (b : ObligationLiquidity) : Prop :=
  b.worth qs ≤ b.marketValueSf.toNat ∧ b.marketValueSf.toNat ≤ b.worth qs + b.unit qs ∧
    ∀ q, qs b.borrowReserve = some q → q.price ≠ 0 → b.cumulativeBorrowRateSf = q.rate

variable {b : ObligationLiquidity} {k : Pubkey} {q : Quote}

theorem worth_of_quote (hk : b.borrowReserve = k) (h : qs k = some q) (hpos : q.price ≠ 0) :
    b.worth qs = q.debtValue (b.debtAt q.rate) := by
  rw [worth, hk, h]
  exact if_neg hpos

theorem unit_of_quote (hk : b.borrowReserve = k) (h : qs k = some q) : b.unit qs = q.price := by
  rw [unit, hk, h, Option.elim_some]

theorem debtAt_self {c : U128} (h : b.cumulativeBorrowRateSf = c) :
    b.debtAt c = b.borrowedAmountSf.toNat := if_pos (.inr h.symm)

/-- At the reserve's index there is nothing to bring up. -/
theorem worth_of_current (hk : b.borrowReserve = k) (h : qs k = some q) (hpos : q.price ≠ 0)
    (hrate : b.cumulativeBorrowRateSf = q.rate) :
    b.worth qs = q.debtValue b.borrowedAmountSf.toNat := by
  rw [worth_of_quote hk h hpos, debtAt_self hrate]

theorem coherent_of_worth (h : b.worth qs = b.marketValueSf.toNat)
    (hrate : ∀ q, qs b.borrowReserve = some q → q.price ≠ 0 → b.cumulativeBorrowRateSf = q.rate) :
    b.Coherent qs := ⟨h.le, Nat.le_add_right_of_le h.ge, hrate⟩

theorem coherent_of_current (hk : b.borrowReserve = k) (h : qs k = some q) (hpos : q.price ≠ 0)
    (hrate : b.cumulativeBorrowRateSf = q.rate)
    (hle : q.debtValue b.borrowedAmountSf.toNat ≤ b.marketValueSf.toNat)
    (hunit : b.marketValueSf.toNat ≤ q.debtValue b.borrowedAmountSf.toNat + q.price) :
    b.Coherent qs := by
  rw [Coherent, worth_of_current hk h hpos hrate, unit_of_quote hk h]
  refine ⟨hle, hunit, fun q' hq' _ => ?_⟩
  rw [hk, h] at hq'
  cases hq'
  exact hrate

end ObligationLiquidity

/-! ## Obligations -/

namespace Obligation

/-- The deposits `health_factor` reads. -/
def readDeposits (o : Obligation) : List ObligationCollateral :=
  (o.deposits.toList.take o.depositsCount.toNat).filter (·.isActive)

/-- The debts `health_factor` reads. -/
def readBorrows (o : Obligation) : List ObligationLiquidity :=
  (o.borrows.toList.take o.borrowsCount.toNat).filter (·.isActive)

/-- The two sums `health_factor` reads are those of a refresh, up to one atomic unit per slot. -/
structure Coherent (qs : Pubkey → Option Quote) (o : Obligation) : Prop where
  deposits_le : ((o.readDeposits).map (·.marketValueSf.toNat)).sum ≤
    ((o.readDeposits).map (·.worth qs)).sum + ((o.readDeposits).map (·.unit qs)).sum
  le_deposits : ((o.readDeposits).map (·.worth qs)).sum ≤
    ((o.readDeposits).map (·.marketValueSf.toNat)).sum + ((o.readDeposits).map (·.unit qs)).sum
  borrows_le : ((o.readBorrows).map (·.marketValueSf.toNat)).sum ≤
    ((o.readBorrows).map (·.worth qs)).sum + ((o.readBorrows).map (·.unit qs)).sum
  le_borrows : ((o.readBorrows).map (·.worth qs)).sum ≤
    ((o.readBorrows).map (·.marketValueSf.toNat)).sum + ((o.readBorrows).map (·.unit qs)).sum

/-- Every slot `health_factor` reads is coherent. -/
structure CoherentSlots (qs : Pubkey → Option Quote) (o : Obligation) : Prop where
  deposits : ∀ i : Fin maxDepositsCountInReserve, i.val < o.depositsCount.toNat →
    depositLayout.Live o.deposits[i] → o.deposits[i].Coherent qs
  borrows : ∀ i : Fin maxBorrowCountInReserve, i.val < o.borrowsCount.toNat →
    borrowLayout.Live o.borrows[i] → o.borrows[i].Coherent qs

/-- What holds of the live slots of a prefix holds of the list that is read. -/
theorem forall_mem_read {σ : Type} {n c : ℕ} {v : Vector σ n} {p : σ → Bool} {P : σ → Prop}
    (h : ∀ i : Fin n, i.val < c → p v[i] = true → P v[i]) :
    ∀ x ∈ (v.toList.take c).filter p, P x := by
  intro x hx
  obtain ⟨hmem, hp⟩ := List.mem_filter.mp hx
  obtain ⟨m, hm, rfl⟩ := List.mem_iff_getElem.mp hmem
  rw [List.length_take, Vector.length_toList] at hm
  rw [List.getElem_take, Vector.getElem_toList] at hp ⊢
  exact h ⟨m, by omega⟩ (by simp only; omega) hp

/-- Errors within a unit each add up to at most the sum of the units. -/
theorem sum_le_of_forall {α : Type} {xs : List α} {f g u : α → ℕ}
    (h : ∀ x ∈ xs, f x ≤ g x + u x) : (xs.map f).sum ≤ (xs.map g).sum + (xs.map u).sum := by
  rw [← List.sum_map_add]
  exact List.sum_le_sum h

theorem CoherentSlots.coherent {o : Obligation} (h : o.CoherentSlots qs) : o.Coherent qs := by
  have hdeposits : ∀ c ∈ o.readDeposits, c.Coherent qs :=
    forall_mem_read fun i hi hact => h.deposits i hi (depositLayout_live.mpr hact)
  have hborrows : ∀ b ∈ o.readBorrows, b.Coherent qs :=
    forall_mem_read fun i hi hact => h.borrows i hi (borrowLayout_live.mpr hact)
  exact {
    deposits_le := sum_le_of_forall fun c hc => (hdeposits c hc).2
    le_deposits := sum_le_of_forall fun c hc => Nat.le_add_right_of_le (hdeposits c hc).1
    borrows_le := sum_le_of_forall fun b hb => (hborrows b hb).2.1
    le_borrows := sum_le_of_forall fun b hb => Nat.le_add_right_of_le (hborrows b hb).1 }

/-! ### Repaying and withdrawing

Both leave the cached value of their slot alone. -/

variable {o o' : Obligation} {k : Pubkey} {q : Quote}

/-- Repaying at most half of a debt does not close its slot. -/
theorem repay_half {a : U128} {i : Fin maxBorrowCountInReserve} (hi : o.findBorrow k = .ok i)
    (hhalf : 2 * a.toNat ≤ o.borrows[i].borrowedAmountSf.toNat / 10 ^ 12)
    (h : (o.repay k a).commit = .ok o') :
    ∃ left : U128, left.toNat + a.toNat * 10 ^ 12 = o.borrows[i].borrowedAmountSf.toNat ∧
      o' = o.setBorrow i { o.borrows[i] with borrowedAmountSf := left } := by
  obtain ⟨hpos, i', hi', left, hleft, hcase⟩ := repay_ok h
  rw [hi] at hi'
  cases hi'
  refine ⟨left, hleft, ?_⟩
  rcases hcase with ⟨hdust, -⟩ | rfl
  · omega
  · rfl

theorem CoherentSlots.repay {a : U128} {i : Fin maxBorrowCountInReserve}
    (hslots : o.CoherentSlots qs) (hi : o.findBorrow k = .ok i)
    (hhalf : 2 * a.toNat ≤ o.borrows[i].borrowedAmountSf.toNat / 10 ^ 12) (hq : qs k = some q)
    (hprice : q.price ≠ 0)
    (hunit : i.val < o.borrowsCount.toNat →
      o.borrows[i].marketValueSf.toNat + a.toNat * q.price ≤ o.borrows[i].worth qs + q.price)
    (h : (o.repay k a).commit = .ok o') : o'.CoherentSlots qs := by
  obtain ⟨left, hleft, rfl⟩ := repay_half hi hhalf h
  refine ⟨hslots.deposits, fun x hx hl => ?_⟩
  rw [setBorrow_borrows] at hl ⊢
  by_cases hxi : i = x
  · subst hxi
    rw [getElem_set_fin_self] at hl ⊢
    have hkey := (findBorrow_eq_ok.mp hi).1
    obtain ⟨hle, -, hrate⟩ := hslots.borrows i hx hl
    have hrate := hrate q (hkey ▸ hq) hprice
    have hworth := ObligationLiquidity.worth_of_current hkey hq hprice hrate
    -- the debt is worth exactly the repayment less
    have hless : o.borrows[i].worth qs = q.debtValue left.toNat + a.toNat * q.price := by
      rw [hworth, ← hleft, Quote.debtValue, Quote.debtValue, Nat.add_mul_div_right _ _ (by decide),
        Nat.add_mul]
    have hunit := hunit hx
    rw [hless] at hle hunit
    refine ObligationLiquidity.coherent_of_current ?_ hq hprice ?_ ?_ ?_
    · exact hkey
    · exact hrate
    · show q.debtValue left.toNat ≤ o.borrows[i].marketValueSf.toNat
      omega
    · show o.borrows[i].marketValueSf.toNat ≤ q.debtValue left.toNat + q.price
      omega
  · rw [getElem_set_fin_ne _ _ hxi] at hl ⊢
    exact hslots.borrows x hx hl

theorem CoherentSlots.withdraw {a : U64} {j : Fin maxDepositsCountInReserve}
    (hslots : o.CoherentSlots qs) (hj : o.findDeposit k = .ok j) (hq : qs k = some q)
    (hprice : q.price ≠ 0)
    (hunit : j.val < o.depositsCount.toNat → o.deposits[j].depositedAmount.toNat ≤ a.toNat ∨
      o.deposits[j].marketValueSf.toNat ≤
        q.depositValue (o.deposits[j].depositedAmount.toNat - a.toNat) + q.unitValue)
    (h : (o.withdraw k a).commit = .ok o') : o'.CoherentSlots qs := by
  obtain ⟨-, j', hj', hcase⟩ := withdraw_ok h
  rw [hj] at hj'
  cases hj'
  rcases hcase with ⟨-, rfl⟩ | ⟨left, hpos, hleft, rfl⟩
  · -- the slot is closed, and the prefix loses its last slot
    refine ⟨fun x hx hl => ?_, hslots.borrows⟩
    have hcount : x.val < o.depositsCount.toNat := by
      have hsub : (o.clearedDeposit j).depositsCount = saturatingSub o.depositsCount 1 := rfl
      rw [hsub, toNat_saturatingSub] at hx
      omega
    rw [clearedDeposit] at hl ⊢
    rw [setDeposit_deposits] at hl ⊢
    by_cases hxj : j = x
    · subst hxj
      rw [getElem_set_fin_self] at hl
      exact absurd hl depositLayout_default
    · rw [getElem_set_fin_ne _ _ hxj] at hl ⊢
      exact hslots.deposits x hcount hl
  · refine ⟨fun x hx hl => ?_, hslots.borrows⟩
    rw [setDeposit_deposits] at hl ⊢
    by_cases hxj : j = x
    · subst hxj
      rw [getElem_set_fin_self] at hl ⊢
      have hkey := (findDeposit_eq_ok.mp hj).1
      obtain ⟨hle, -⟩ := hslots.deposits j hx hl
      rw [ObligationCollateral.worth_of_quote hkey hq hprice] at hle
      have hrest : o.deposits[j].depositedAmount.toNat - a.toNat = left.toNat := by omega
      have hunit := (hunit hx).resolve_left (by omega)
      rw [hrest] at hunit
      refine ObligationCollateral.coherent_of_quote ?_ hq hprice ?_ ?_
      · exact hkey
      · have hless : left.toNat ≤ o.deposits[j].depositedAmount.toNat := by omega
        exact (q.depositValue_mono hless).trans hle
      · exact hunit
    · rw [getElem_set_fin_ne _ _ hxj] at hl ⊢
      exact hslots.deposits x hx hl

end Obligation

namespace Ledger

variable {reserves : Pubkey → Option Reserve} {clock : Clock} {o o' : Obligation}

/-! ## After a refresh -/

theorem DepositValued.worth {c c' : ObligationCollateral} (h : DepositValued reserves c c')
    (hl : depositLayout.Live c') : c'.marketValueSf.toNat = c'.worth (quotes reserves) := by
  cases h with
  | free hfree => exact absurd hl hfree
  | unpriced hr hzero =>
      rw [ObligationCollateral.worth, quotes_eq_some hr]
      exact (if_pos (congrArg BitVec.toNat hzero)).symm
  | @priced r mv _ hr hpos hmv =>
      have hprice : r.quote.price ≠ 0 := fun hz => hpos (BitVec.eq_of_toNat_eq hz)
      symm
      exact Eq.trans (ObligationCollateral.worth_of_quote rfl (quotes_eq_some hr) hprice) hmv.symm

theorem BorrowValued.coherent {b b' : ObligationLiquidity} (h : BorrowValued reserves b b')
    (hl : borrowLayout.Live b') : b'.Coherent (quotes reserves) := by
  cases h with
  | free hfree => exact absurd hl hfree
  | unpriced hr hzero =>
      have hprice := congrArg BitVec.toNat hzero
      have hworth : b.worth (quotes reserves) = b.marketValueSf.toNat := by
        rw [ObligationLiquidity.worth, quotes_eq_some hr]
        exact if_pos hprice
      refine ObligationLiquidity.coherent_of_worth hworth fun q hq hpos => ?_
      rw [quotes_eq_some hr] at hq
      cases hq
      exact absurd hprice hpos
  | @priced r d mv hlive hr hpos hrate hd hmv =>
      have hprice : r.quote.price ≠ 0 := fun hz => hpos (BitVec.eq_of_toNat_eq hz)
      refine ObligationLiquidity.coherent_of_worth ?_ fun q hq _ => ?_
      · exact Eq.trans
          (ObligationLiquidity.worth_of_current rfl (quotes_eq_some hr) hprice rfl) hmv.symm
      · rw [quotes_eq_some hr] at hq
        cases hq
        rfl

/-- A refresh leaves every slot that is read coherent. -/
theorem Refreshed.coherentSlots (h : Refreshed reserves clock o o') :
    o'.CoherentSlots (quotes reserves) := by
  refine ⟨fun i hi hl => ?_, fun i hi hl => ?_⟩
  · rw [h.depositsCount] at hi
    have hworth := ((h.deposits i).1 hi).worth hl
    exact ⟨hworth.ge, Nat.le_add_right_of_le hworth.le⟩
  · rw [h.borrowsCount] at hi
    exact ((h.borrows i).1 hi).coherent hl

/-! ## After a liquidation -/

variable {repayKey withdrawKey : Pubkey} {amount : U64} {s : Seizure} {r r₁ q q₁ : Reserve}
  {i : Fin maxBorrowCountInReserve} {j : Fin maxDepositsCountInReserve} {o₁ : Obligation}

/-- Bringing the reserve to this slot moves nothing that valuation reads. -/
def Quiet (slot : U64) (reserves : Pubkey → Option Reserve) (k : Pubkey) : Prop :=
  ∀ r ∈ reserves k, ∀ r₁ ∈ (r.accrueInterest slot).toOption, r₁.quote = r.quote

/-- What a liquidation repays: what is asked for, and at most half of the debt. -/
def repayment (b : ObligationLiquidity) (rate : U128) (amount : U64) : ℕ :=
  min amount.toNat (b.debtAt rate / 10 ^ 12 * 50 / 100 % 2 ^ 64)

/-- After the repayment the value of the debt slot, which stays, is at most one unit too high. -/
def RepaysUnit (qs : Pubkey → Option Quote) (o : Obligation) (repayKey : Pubkey) (amount : U64) :
    Prop :=
  ∀ i ∈ (o.findBorrow repayKey).toOption, i.val < o.borrowsCount.toNat → ∀ q ∈ qs repayKey,
    o.borrows[i].marketValueSf.toNat + repayment o.borrows[i] q.rate amount * q.price ≤
      o.borrows[i].worth qs + q.price

/-- The liquidation takes the whole deposit, or so little that its value, which stays, is at most
one unit too high. -/
def SeizesUnit (reserves : Pubkey → Option Reserve) (o : Obligation)
    (repayKey withdrawKey : Pubkey) (amount : U64) : Prop :=
  ∀ i ∈ (o.findBorrow repayKey).toOption, ∀ j ∈ (o.findDeposit withdrawKey).toOption,
    j.val < o.depositsCount.toNat → ∀ p ∈ quotes reserves repayKey, ∀ r ∈ reserves withdrawKey,
      let q := r.quote
      let bought := boughtCtokens (repayment o.borrows[i] p.rate amount) p.price q.price q.total
        q.supply r.config.liquidationBonusPct.toNat
      o.deposits[j].depositedAmount.toNat ≤ bought ∨
        o.deposits[j].marketValueSf.toNat ≤
          q.depositValue (o.deposits[j].depositedAmount.toNat - bought) + q.unitValue

instance decidableQuiet (slot : U64) (reserves : Pubkey → Option Reserve) (k : Pubkey) :
    Decidable (Quiet slot reserves k) :=
  inferInstanceAs (Decidable (∀ r ∈ reserves k, ∀ r₁ ∈ (r.accrueInterest slot).toOption, _))

instance decidableRepaysUnit (qs : Pubkey → Option Quote) (o : Obligation) (repayKey : Pubkey)
    (amount : U64) : Decidable (RepaysUnit qs o repayKey amount) :=
  inferInstanceAs (Decidable (∀ i ∈ (o.findBorrow repayKey).toOption, _ → ∀ q ∈ qs repayKey, _))

instance decidableSeizesUnit (reserves : Pubkey → Option Reserve) (o : Obligation)
    (repayKey withdrawKey : Pubkey) (amount : U64) :
    Decidable (SeizesUnit reserves o repayKey withdrawKey amount) :=
  inferInstanceAs (Decidable (∀ i ∈ (o.findBorrow repayKey).toOption,
    ∀ j ∈ (o.findDeposit withdrawKey).toOption, _ → ∀ p ∈ quotes reserves repayKey,
      ∀ r ∈ reserves withdrawKey, _ ∨ _))

/-! ### Quotes -/

theorem Seizes.repayQuote
    (hs : Seizes clock repayKey withdrawKey reserves o amount s r r₁ q q₁ i j o₁)
    (hrepay : Quiet clock.slot reserves repayKey) : r₁.quote = r.quote := by
  apply hrepay r hs.repayReserve r₁
  rw [hs.repayAccrued]
  rfl

/-- Of the reserve drawn on, a quiet accrual leaves the numbers that price a seizure. -/
theorem Seizes.withdrawTerms
    (hs : Seizes clock repayKey withdrawKey reserves o amount s r r₁ q q₁ i j o₁)
    (hwithdraw : Quiet clock.slot reserves withdrawKey) :
    ∃ q₀, reserves withdrawKey = some q₀ ∧ q₁.quote = q₀.quote ∧ q₁.config = q₀.config := by
  obtain ⟨q₀, hq₀, hacc⟩ := hs.withdrawn
  refine ⟨q₀, hq₀, hwithdraw q₀ hq₀ q₁ ?_, (Reserve.accrues_of_ok hacc).config⟩
  rw [hacc]
  rfl

/-- A quiet liquidation changes no quote. -/
theorem Seizes.quotes_eq
    (hs : Seizes clock repayKey withdrawKey reserves o amount s r r₁ q q₁ i j o₁)
    (hrepay : Quiet clock.slot reserves repayKey)
    (hwithdraw : Quiet clock.slot reserves withdrawKey) :
    quotes s.reserves = quotes reserves := by
  obtain ⟨r₂, r₃, hr₂, hr₃, hreserves⟩ := hs.reserves
  have hterms : r₃.quote = r₂.quote := (Reserve.keepsTerms_of_repay hr₃).quote
  have hfirst : quotes (store reserves repayKey r₁) = quotes reserves :=
    quotes_store hs.repayReserve (hs.repayQuote hrepay)
  obtain ⟨q₀, hq₀, hquote, -⟩ := hs.withdrawTerms hwithdraw
  have hsame : some q.quote = some q₀.quote := by
    rw [← quotes_eq_some hs.withdrawReserve, hfirst, quotes_eq_some hq₀]
  have hsecond : q₁.quote = q.quote := hquote.trans (Option.some.inj hsame).symm
  rw [hreserves, quotes_store hr₂ hterms, quotes_store hs.withdrawReserve hsecond, hfirst]

/-! ### Slots -/

/-- Only an uncounted debt grows: a counted one stands at the index already. -/
theorem Seizes.coherentSlots_accrued
    (hs : Seizes clock repayKey withdrawKey reserves o amount s r r₁ q q₁ i j o₁)
    (hrepay : Quiet clock.slot reserves repayKey) (h : o.CoherentSlots (quotes reserves)) :
    o₁.CoherentSlots (quotes reserves) ∧
      (i.val < o₁.borrowsCount.toNat → i.val < o.borrowsCount.toNat ∧ o₁ = o) := by
  rcases Obligation.accrueInterest_ok hs.accrued with rfl | ⟨hl, hlt, -, d, -, rfl⟩
  · exact ⟨h, fun hi => ⟨hi, rfl⟩⟩
  · have hkey := (Obligation.findBorrow_eq_ok.mp hs.borrow).1
    have hquote := hs.repayQuote hrepay
    have hprice : r.quote.price ≠ 0 := by
      rw [← hquote]
      exact fun hz => hs.repayPrice (BitVec.eq_of_toNat_eq hz)
    have huncounted : ¬ i.val < o.borrowsCount.toNat := by
      intro hi
      have hrate := (h.borrows i hi hl).2.2 r.quote
        (hkey ▸ quotes_eq_some hs.repayReserve) hprice
      rw [hrate, ← hquote] at hlt
      exact Nat.lt_irrefl _ hlt
    refine ⟨⟨h.deposits, fun x hx => ?_⟩, fun hi => absurd hi huncounted⟩
    have hne : i ≠ x := by
      rintro rfl
      exact huncounted hx
    rw [Obligation.grownBorrow, Obligation.setBorrow_borrows, getElem_set_fin_ne _ _ hne]
    exact h.borrows x hx

theorem Seizes.findBorrow_accrued
    (hs : Seizes clock repayKey withdrawKey reserves o amount s r r₁ q q₁ i j o₁) :
    o₁.findBorrow repayKey = .ok i := by
  have hkey := (Obligation.findBorrow_eq_ok.mp hs.borrow).1
  rcases Obligation.accrueInterest_ok hs.accrued with rfl | ⟨-, -, -, d, -, rfl⟩
  · exact hs.borrow
  · exact Obligation.findBorrow_setBorrow hs.borrow hkey

theorem Seizes.half
    (hs : Seizes clock repayKey withdrawKey reserves o amount s r r₁ q q₁ i j o₁) :
    2 * s.actualRepay.toU128.toNat ≤ o₁.borrows[i].borrowedAmountSf.toNat / 10 ^ 12 := by
  have hrepaid := hs.repaid
  rw [toNat_toU128]
  omega

theorem Seizes.actualRepay_eq
    (hs : Seizes clock repayKey withdrawKey reserves o amount s r r₁ q q₁ i j o₁) :
    s.actualRepay.toNat =
      repayment o.borrows[i] r₁.liquidity.cumulativeBorrowRateSf amount := by
  rw [hs.repaid, Obligation.debtAt_of_accrueInterest hs.accrued]
  rfl

/-- The debts, once the repayment is taken off. -/
theorem Seizes.coherentSlots_repaid {o₂ : Obligation}
    (hs : Seizes clock repayKey withdrawKey reserves o amount s r r₁ q q₁ i j o₁)
    (hrepay : Quiet clock.slot reserves repayKey)
    (hrepays : RepaysUnit (quotes reserves) o repayKey amount)
    (h : o.CoherentSlots (quotes reserves))
    (ho₂ : (o₁.repay repayKey s.actualRepay.toU128).commit = .ok o₂) :
    o₂.CoherentSlots (quotes reserves) := by
  obtain ⟨hslots, hcounted⟩ := hs.coherentSlots_accrued hrepay h
  have hquote := hs.repayQuote hrepay
  refine hslots.repay hs.findBorrow_accrued hs.half (quotes_eq_some hs.repayReserve) ?_ ?_ ho₂
  · rw [← hquote]
    exact fun hz => hs.repayPrice (BitVec.eq_of_toNat_eq hz)
  · intro hi
    obtain ⟨hi, rfl⟩ := hcounted hi
    have hunit := hrepays i (by rw [hs.borrow]; rfl) hi r.quote (quotes_eq_some hs.repayReserve)
    rw [← hquote] at hunit ⊢
    rw [toNat_toU128, hs.actualRepay_eq]
    exact hunit

/-- What is seized is the whole deposit, or within a unit of its value. -/
theorem Seizes.seizesUnit
    (hs : Seizes clock repayKey withdrawKey reserves o amount s r r₁ q q₁ i j o₁)
    (hrepay : Quiet clock.slot reserves repayKey)
    (hwithdraw : Quiet clock.slot reserves withdrawKey)
    (hseizes : SeizesUnit reserves o repayKey withdrawKey amount)
    (hcount : j.val < o.depositsCount.toNat) :
    o.deposits[j].depositedAmount.toNat ≤ s.ctokensToSeize.toNat ∨
      o.deposits[j].marketValueSf.toNat ≤
        q₁.quote.depositValue (o.deposits[j].depositedAmount.toNat - s.ctokensToSeize.toNat) +
          q₁.quote.unitValue := by
  obtain ⟨q', hq', hquote, hconfig⟩ := hs.withdrawTerms hwithdraw
  have hunit := hseizes i (by rw [hs.borrow]; rfl) j (by rw [hs.findDeposit]; rfl) hcount r.quote
    (quotes_eq_some hs.repayReserve) q' hq'
  have hseized : s.ctokensToSeize.toNat = min (boughtCtokens s.actualRepay.toNat r₁.quote.price
      q₁.quote.price q₁.quote.total q₁.quote.supply q₁.config.liquidationBonusPct.toNat)
      o.deposits[j].depositedAmount.toNat := hs.seized
  rw [← hs.repayQuote hrepay, ← hquote, ← hconfig] at hunit
  have hamount : s.actualRepay.toNat = repayment o.borrows[i] r₁.quote.rate amount :=
    hs.actualRepay_eq
  rw [hamount] at hseized
  rcases hunit with hall | hless
  · exact .inl (hseized.trans (Nat.min_eq_right hall)).ge
  · rcases Nat.le_total o.deposits[j].depositedAmount.toNat _ with hall | hpart
    · exact .inl (hseized.trans (Nat.min_eq_right hall)).ge
    · rw [hseized, Nat.min_eq_left hpart]
      exact .inr hless

/-- A quiet liquidation that repays and seizes at most a unit keeps the slots coherent. -/
theorem Seizes.coherentSlots
    (hs : Seizes clock repayKey withdrawKey reserves o amount s r r₁ q q₁ i j o₁)
    (hrepay : Quiet clock.slot reserves repayKey)
    (hwithdraw : Quiet clock.slot reserves withdrawKey)
    (hrepays : RepaysUnit (quotes reserves) o repayKey amount)
    (hseizes : SeizesUnit reserves o repayKey withdrawKey amount)
    (h : o.CoherentSlots (quotes reserves)) :
    s.obligation.CoherentSlots (quotes s.reserves) := by
  rw [hs.quotes_eq hrepay hwithdraw]
  obtain ⟨o₂, ho₂, ho₃⟩ := hs.obligation
  have hrepaid := hs.coherentSlots_repaid hrepay hrepays h ho₂
  obtain ⟨left, -, hleft⟩ := Obligation.repay_half hs.findBorrow_accrued hs.half ho₂
  obtain ⟨q', hq', hquote, -⟩ := hs.withdrawTerms hwithdraw
  have hj : o₂.findDeposit withdrawKey = .ok j := by
    rw [hleft]
    exact hs.deposit
  refine hrepaid.withdraw hj (quotes_eq_some hq') ?_ ?_ ho₃
  · rw [← hquote]
    exact fun hz => hs.withdrawPrice (BitVec.eq_of_toNat_eq hz)
  · -- the repayment has not touched the deposits
    have hdeposits : o₂.deposits = o.deposits := by
      rw [hleft]
      exact hs.deposits_accrued.1
    have hcount : o₂.depositsCount = o.depositsCount := by
      rw [hleft]
      exact hs.deposits_accrued.2
    rw [hdeposits, hcount, ← hquote]
    exact hs.seizesUnit hrepay hwithdraw hseizes

end Ledger

end VeilVault
