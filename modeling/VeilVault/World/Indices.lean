/-
# VeilVault.World.Indices — slots follow their reserve's index.

A borrow slot remembers the index its debt was last accrued to.  `Obligation::borrow` ignores the
index it is handed when the slot exists already, so that new principal pays no past interest rests
on every caller accruing the slot first; and accruing never fails for going backwards only because
no slot is ever ahead of its reserve.

`Books.Ordered` says both in one invariant: reserves start at index one and never fall, and each
slot lies between one and its reserve.  A step raises the reserves (`Raised`), which slots survive,
and writes at most one obligation, at an index one of its reserves has just reached.
-/
import VeilVault.Ledger.Debts
import VeilVault.World.Vaults

namespace VeilVault

open Kit Kit.Outcome

/-! ## Slots behind an index -/

/-- A free slot, or one whose index lies between one and its reserve's. -/
def ObligationLiquidity.Behind (reserves : Pubkey → Option Reserve) (b : ObligationLiquidity) :
    Prop :=
  borrowLayout.Live b → 10 ^ 12 ≤ b.cumulativeBorrowRateSf.toNat ∧
    ∃ r, reserves b.borrowReserve = some r ∧
      b.cumulativeBorrowRateSf.toNat ≤ r.liquidity.cumulativeBorrowRateSf.toNat

/-- No reserve disappears and no index falls; a new reserve starts at one. -/
def Raised (reserves reserves' : Pubkey → Option Reserve) : Prop :=
  ∀ k, (reserves k = none ∧
      ∀ r', reserves' k = some r' → 10 ^ 12 ≤ r'.liquidity.cumulativeBorrowRateSf.toNat) ∨
    ∃ r r', reserves k = some r ∧ reserves' k = some r' ∧
      r.liquidity.cumulativeBorrowRateSf.toNat ≤ r'.liquidity.cumulativeBorrowRateSf.toNat

section Slots

variable {reserves reserves' : Pubkey → Option Reserve} {k : Pubkey} {r r' : Reserve}
  {b : ObligationLiquidity} {o o' : Obligation} {c : U128}

theorem Raised.refl (reserves : Pubkey → Option Reserve) : Raised reserves reserves := by
  intro k
  cases hr : reserves k with
  | none => exact .inl ⟨rfl, fun _ h => by cases h⟩
  | some r => exact .inr ⟨r, r, rfl, rfl, le_refl _⟩

theorem Raised.store (hr : reserves k = some r)
    (hle : r.liquidity.cumulativeBorrowRateSf.toNat ≤
      r'.liquidity.cumulativeBorrowRateSf.toNat) : Raised reserves (store reserves k r') := by
  intro x
  by_cases hx : x = k
  · rw [hx, store_self]
    exact .inr ⟨r, r', hr, rfl, hle⟩
  · rw [store_of_ne _ _ hx]
    exact Raised.refl reserves x

theorem Raised.new (hnew : reserves k = none)
    (hone : 10 ^ 12 ≤ r'.liquidity.cumulativeBorrowRateSf.toNat) :
    Raised reserves (VeilVault.store reserves k r') := by
  intro x
  by_cases hx : x = k
  · rw [hx, store_self]
    refine .inl ⟨hnew, fun q hq => ?_⟩
    cases hq
    exact hone
  · rw [store_of_ne _ _ hx]
    exact Raised.refl reserves x

theorem Raised.trans {reserves'' : Pubkey → Option Reserve} (h : Raised reserves reserves')
    (h' : Raised reserves' reserves'') : Raised reserves reserves'' := by
  intro k
  rcases h k with ⟨hnone, hnew⟩ | ⟨r, r', hr, hr', hle⟩
  · refine .inl ⟨hnone, fun q hq => ?_⟩
    rcases h' k with ⟨-, hnew'⟩ | ⟨p, q', hp, hq', hple⟩
    · exact hnew' q hq
    · cases hq'.symm.trans hq
      exact (hnew p hp).trans hple
  · rcases h' k with ⟨hnone, -⟩ | ⟨p, q, hp, hq, hple⟩
    · cases hr'.symm.trans hnone
    · cases hr'.symm.trans hp
      exact .inr ⟨r, q, hr, hq, hle.trans hple⟩

theorem ObligationLiquidity.Behind.mono (h : b.Behind reserves)
    (hraise : Raised reserves reserves') : b.Behind reserves' := by
  intro hl
  obtain ⟨hone, r, hr, hle⟩ := h hl
  rcases hraise b.borrowReserve with ⟨hnone, -⟩ | ⟨q, q', hq, hq', hqle⟩
  · rw [hr] at hnone
    cases hnone
  · rw [hr] at hq
    cases hq
    exact ⟨hone, q', hq', hle.trans hqle⟩

/-- A slot written at the index its reserve has. -/
theorem ObligationLiquidity.behind_of_current (hr : reserves b.borrowReserve = some r)
    (hone : 10 ^ 12 ≤ r.liquidity.cumulativeBorrowRateSf.toNat)
    (hc : b.cumulativeBorrowRateSf = r.liquidity.cumulativeBorrowRateSf) : b.Behind reserves := by
  intro _
  rw [hc]
  exact ⟨hone, r, hr, le_refl _⟩

namespace Obligation

/-- Every slot of the obligation is behind. -/
def Behind (reserves : Pubkey → Option Reserve) (o : Obligation) : Prop :=
  ∀ i : Fin maxBorrowCountInReserve, o.borrows[i].Behind reserves

theorem behind_init (owner market : Pubkey) : (init owner market).Behind reserves := by
  intro i hl
  have hfree : ∀ i : Fin maxBorrowCountInReserve,
      ¬ borrowLayout.Live (Vector.replicate maxBorrowCountInReserve default)[i] := by
    decide
  exact absurd hl (hfree i)

theorem Behind.congr (h : o.Behind reserves) (hb : o'.borrows = o.borrows) :
    o'.Behind reserves := by
  intro i
  rw [hb]
  exact h i

theorem Behind.setBorrow (h : o.Behind reserves) (i : Fin maxBorrowCountInReserve)
    (hb : b.Behind reserves) : (o.setBorrow i b).Behind reserves :=
  forall_set h hb

theorem Behind.accrueInterest {i : Fin maxBorrowCountInReserve} (h : o.Behind reserves)
    (hr : reserves o.borrows[i].borrowReserve = some r)
    (hacc : (o.accrueInterest i r.liquidity.cumulativeBorrowRateSf).commit = .ok o') :
    o'.Behind reserves := by
  rcases accrueInterest_ok hacc with rfl | ⟨hl, hlt, -, d, -, rfl⟩
  · exact h
  · refine h.setBorrow i fun _ => ⟨?_, r, hr, le_refl _⟩
    exact (h i hl).1.trans (Nat.le_of_lt hlt)

/-- Repaying keeps the slot's index, or clears the slot. -/
theorem Behind.repay {a : U128} (h : o.Behind reserves) (hrep : (o.repay k a).commit = .ok o') :
    o'.Behind reserves := by
  obtain ⟨-, i, -, left, -, ⟨-, rfl⟩ | rfl⟩ := repay_ok hrep
  · exact h.setBorrow i fun hl => absurd hl borrowLayout_default
  · exact h.setBorrow i (h i)

theorem Behind.borrow {a : U128} (h : o.Behind reserves) (hk : k ≠ default)
    (hr : reserves k = some r) (hone : 10 ^ 12 ≤ r.liquidity.cumulativeBorrowRateSf.toNat)
    (hbor : (o.borrow k a r.liquidity.cumulativeBorrowRateSf).commit = .ok o') :
    o'.Behind reserves := by
  obtain ⟨-, ⟨i, d, -, -, rfl⟩ | ⟨i, d, -, -, -, -, rfl⟩⟩ := borrow_ok hk hbor
  · exact h.setBorrow i (h i)
  · exact h.setBorrow i (ObligationLiquidity.behind_of_current hr hone rfl)

theorem Behind.accrueExisting (h : o.Behind reserves) (hr : reserves k = some r)
    (hacc : o.accrueExisting k r.liquidity.cumulativeBorrowRateSf = .ok o') :
    o'.Behind reserves := by
  unfold Obligation.accrueExisting at hacc
  rcases o.findBorrow_cases k with ⟨i, hf⟩ | ⟨hf, -⟩
  · rw [hf] at hacc
    exact h.accrueInterest ((findBorrow_eq_ok.mp hf).1.symm ▸ hr) hacc
  · rw [hf] at hacc
    cases hacc
    exact h

theorem Behind.of_grown {o' : Obligation} (h : o.Behind reserves)
    (hgrown : ∀ i : Fin maxBorrowCountInReserve,
      Ledger.Grown reserves o.borrows[i] o'.borrows[i]) : o'.Behind reserves := by
  intro i hl
  obtain ⟨hkey, hcase⟩ := hgrown i
  have hl' : borrowLayout.Live o.borrows[i] := by
    show o.borrows[i].borrowReserve ≠ default
    rw [← hkey]
    exact hl
  obtain ⟨hone, r, hr, hle⟩ := h i hl'
  rw [hkey]
  rcases hcase with ⟨-, hc⟩ | ⟨q, hq, hlt, -, hc, -⟩
  · rw [hc]
    exact ⟨hone, r, hr, hle⟩
  · rw [hc]
    exact ⟨hone.trans (Nat.le_of_lt hlt), q, hq, le_refl _⟩

end Obligation

end Slots

/-! ## The invariant -/

namespace Books

/-- Indices start at one, and every slot is behind. -/
structure Ordered (b : Books) : Prop where
  index : ∀ k r, b.reserves k = some r → 10 ^ 12 ≤ r.liquidity.cumulativeBorrowRateSf.toNat
  slots : ∀ x o, b.obligations x = some o → o.Behind b.reserves

variable {clock : Clock} {b b' : Books} {accrued : List Pubkey}

theorem Step.raised (h : Step clock b accrued b') : Raised b.reserves b'.reserves := by
  cases h with
  | idle | wallet | initObligation | refreshObligation | depositCollateral
  | withdrawCollateral => exact .refl _
  | addReserve _ _ hnew hcreate =>
      apply Raised.new hnew
      rw [(Reserve.create_ok hcreate).1]
      show 10 ^ 12 ≤ rateScale.toNat
      decide
  | updateConfig hr h =>
      apply Raised.store hr
      rw [(Reserve.updateConfig_ok h).1]
  | refreshReserve hr h => exact .store hr (Ledger.reaccrued_refresh h).index_le
  | deposit hr _ h => exact .store hr (Ledger.reaccrued_deposit h).index_le
  | withdraw hr _ h => exact .store hr (Ledger.reaccrued_withdraw h).index_le
  | borrow _ _ hr h => exact .store hr h.reaccrued.index_le
  | repay _ _ hr _ h => exact .store hr (Ledger.reaccrued_repay h).index_le
  | seize _ _ h =>
      obtain ⟨r, r₁, q, q₁, i, o₁, o₂, r₂, r₃, hr, hacc, hq, hqacc, -, -, -, -, hr₂, hrep, hs⟩ :=
        Ledger.seize_ok h
      show Raised _ (Ledger.Seizure.reserves _)
      rw [hs]
      have hle : r₂.liquidity.cumulativeBorrowRateSf.toNat ≤
          r₃.liquidity.cumulativeBorrowRateSf.toNat := by
        rw [(Reserve.keepsTerms_of_repay hrep).rate]
      exact ((Raised.store hr (Reserve.accrues_of_ok hacc).rate_le).trans
        (.store hq (Reserve.accrues_of_ok hqacc).rate_le)).trans (.store hr₂ hle)

/-- The obligation a seizure leaves is behind the reserves it leaves. -/
theorem Ordered.seize {gate : Obligation → Result Unit} {x repayKey withdrawKey : Pubkey}
    {o : Obligation} {a : U64} {s : Ledger.Seizure} (hb : b.Ordered)
    (ho : b.obligations x = some o)
    (h : Ledger.seize gate clock repayKey withdrawKey b.reserves o a = .ok s) :
    s.obligation.Behind s.reserves := by
  obtain ⟨r, r₁, q, q₁, i, o₁, o₂, r₂, r₃, hr, hacc, hq, hqacc, hf, ho₁, ho₂, ho₃, hr₂, hrep, hs⟩ :=
    Ledger.seize_ok h
  have hfirst : Raised b.reserves (store b.reserves repayKey r₁) :=
    .store hr (Reserve.accrues_of_ok hacc).rate_le
  have hle : r₂.liquidity.cumulativeBorrowRateSf.toNat ≤
      r₃.liquidity.cumulativeBorrowRateSf.toNat := by
    rw [(Reserve.keepsTerms_of_repay hrep).rate]
  have hrest : Raised (store b.reserves repayKey r₁) s.reserves := by
    rw [hs]
    exact (Raised.store hq (Reserve.accrues_of_ok hqacc).rate_le).trans (.store hr₂ hle)
  have hkey := (Obligation.findBorrow_eq_ok.mp hf).1
  have hold : o.Behind (store b.reserves repayKey r₁) := fun j => (hb.slots x o ho j).mono hfirst
  have hnew : s.obligation.Behind (store b.reserves repayKey r₁) := by
    apply Obligation.Behind.congr _ (Obligation.borrows_withdraw ho₃)
    exact (hold.accrueInterest (hkey.symm ▸ store_self _ _ _) ho₁).repay ho₂
  exact fun j => (hnew j).mono hrest

theorem Step.ordered (hb : b.Ordered) (h : Step clock b accrued b') : b'.Ordered where
  index k r' hr' := by
    rcases h.raised k with ⟨-, hnew⟩ | ⟨r, q, hr, hq, hle⟩
    · exact hnew r' hr'
    · cases hq.symm.trans hr'
      exact (hb.index k r hr).trans hle
  slots := by
    have hraise := h.raised
    have hold : ∀ x o, b.obligations x = some o → o.Behind b'.reserves := fun x o ho j =>
      (hb.slots x o ho j).mono hraise
    -- indices only rise, so a slot that is not touched stays behind its reserve
    cases h with
    | idle | wallet | addReserve | updateConfig | refreshReserve | deposit | withdraw => exact hold
    | initObligation hx hnew => exact forall_store hold (Obligation.behind_init _ _)
    | refreshObligation ho h =>
        apply forall_store hold
        exact (hold _ _ ho).of_grown (Ledger.refreshObligation_ok h).2.1
    | depositCollateral ho hk _ h =>
        apply forall_store hold
        exact (hold _ _ ho).congr (Obligation.borrows_deposit (Pubkey.ne_default hk) h)
    | withdrawCollateral ho hk h =>
        obtain ⟨i, m, -, -, hwd, -⟩ := Ledger.withdrawCollateral_ok h
        apply forall_store hold
        exact (hold _ _ ho).congr ((Obligation.borrows_withdraw hwd).trans rfl)
    | @borrow x k _ _ _ r r' o o' a t ho hk hr h =>
        apply forall_store hold
        obtain ⟨r₁, o₁, hacc, hb', ho₁, hbor⟩ := h.steps
        have hr' : store b.reserves k r' k = some r' := store_self _ _ _
        -- a new slot starts at the index of the reserve that was just accrued
        have hone : 10 ^ 12 ≤ r'.liquidity.cumulativeBorrowRateSf.toNat :=
          (hb.index k r hr).trans h.reaccrued.index_le
        exact ((hold _ _ ho).accrueExisting hr' ho₁).borrow (Pubkey.ne_default hk) hr' hone hbor
    | @repay x k _ _ _ r r' o o' a t ho hk hr _ h =>
        apply forall_store hold
        obtain ⟨r₁, i, o₁, hacc, hrep, hf, ho₁, ho'⟩ := Ledger.repay_ok h
        rw [← (Reserve.keepsTerms_of_repay hrep).rate] at ho₁
        have hkey := (Obligation.findBorrow_eq_ok.mp hf).1
        exact ((hold _ _ ho).accrueInterest (hkey.symm ▸ store_self _ _ _) ho₁).repay ho'
    | seize ho _ h => exact forall_store hold (hb.seize ho h)

end Books

/-! ## Runs -/

namespace World

theorem ordered_run (mxe : Mxe) (clock : Clock) (ixs : List Instruction) :
    (ixs.foldl (tx mxe) (genesis clock)).books.Ordered := by
  let Inv : World → Prop := fun w => w.books.Ordered
  show Inv (ixs.foldl (tx mxe) (genesis clock))
  apply run_invariant ixs
  · exact ⟨fun _ _ h => (by cases h), fun _ _ h => (by cases h)⟩
  · intro ix _ w w' hw h
    exact (exec_step h).ordered hw

/-- The index a borrow, repayment, liquidation or refresh hands to `accrue_interest`: the reserve's
own, or the one it has just been accrued to. -/
def IndexOf (w : World) (r : Reserve) (c : U128) : Prop :=
  c = r.liquidity.cumulativeBorrowRateSf ∨
    ∃ r₁, r.accrueInterest w.clock.slot = .ok r₁ ∧ c = r₁.liquidity.cumulativeBorrowRateSf

/-- A borrow of either kind. -/
def Borrows (w : World) (a : DebtAccounts) (amount : U64) (w' : World) : Prop :=
  w.borrow a amount = .ok w' ∨
    ∃ (p : PrivateDebtAccounts) (encrypted : SharedAmount), p.toDebtAccounts = a ∧
      w.privateBorrow p amount encrypted = .ok w'

/-- How the borrow slots of a world stand to its reserves. -/
structure SlotsFollow (w : World) : Prop where
  /-- Every slot in use has an index between one and its reserve's. -/
  behind : ∀ (x : Pubkey) (o : Obligation) (i : Fin maxBorrowCountInReserve),
    w.obligations x = some o → borrowLayout.Live o.borrows[i] →
    10 ^ 12 ≤ o.borrows[i].cumulativeBorrowRateSf.toNat ∧
      ∃ r, w.reserves o.borrows[i].borrowReserve = some r ∧
        o.borrows[i].cumulativeBorrowRateSf.toNat ≤ r.liquidity.cumulativeBorrowRateSf.toNat
  /-- An accrual of it, at whatever stage of an instruction, fails only when the product of debt
  and index does not fit: the index has not decreased, and the divisor is not zero. -/
  accrues : ∀ (x : Pubkey) (o t : Obligation) (i : Fin maxBorrowCountInReserve) (r : Reserve)
    (c : U128) (e : Fault), w.obligations x = some o → t.borrows[i] = o.borrows[i] →
    w.reserves o.borrows[i].borrowReserve = some r → w.IndexOf r c →
    (t.accrueInterest i c).1 = .error e →
    e = .lending .mathOverflow ∧ 2 ^ 128 ≤ o.borrows[i].borrowedAmountSf.toNat * c.toNat
  /-- A borrow leaves its slot at the reserve's index, with the old debt brought to that index and
  exactly the new principal on top. -/
  borrows : ∀ (a : DebtAccounts) (amount : U64) (w' : World), w.Borrows a amount w' →
    ∃ o o' r' i, w.obligations a.obligation = some o ∧ w'.obligations a.obligation = some o' ∧
      w'.reserves a.reserve = some r' ∧ o'.findBorrow a.reserve = .ok i ∧
      o'.borrows[i].cumulativeBorrowRateSf = r'.liquidity.cumulativeBorrowRateSf ∧
      o'.borrows[i].borrowedAmountSf.toNat =
        o.accruedDebt a.reserve r'.liquidity.cumulativeBorrowRateSf + amount.toNat * 10 ^ 12

variable {w w' : World} {a : DebtAccounts} {amount : U64}

/-- Both borrows do the same to the one reserve and the one obligation they were given. -/
theorem borrows_ok (h : w.Borrows a amount w') :
    ∃ r o r' o', a.reserve ≠ default ∧ w.reserves a.reserve = some r ∧
      w.obligations a.obligation = some o ∧ Ledger.Borrows w.clock a.reserve r o amount r' o' ∧
      w'.obligations a.obligation = some o' ∧ w'.reserves a.reserve = some r' := by
  rcases h with h | ⟨p, encrypted, rfl, h⟩
  · simp only [borrow, bind_eq_ok, cpi_eq_ok, pure_eq_ok, Prod.exists] at h
    obtain ⟨m, r, o, hcheck, r', o', hled, t, -, rfl⟩ := h
    obtain ⟨-, hk, hr, -, ho⟩ := DebtAccounts.check_ok hcheck
    exact ⟨r, o, r', o', Pubkey.ne_default hk, hr, ho, Ledger.borrow_ok hled, store_self _ _ _,
      store_self _ _ _⟩
  · simp only [privateBorrow, bind_eq_ok, cpi_eq_ok, pure_eq_ok, Prod.exists] at h
    obtain ⟨m, r, o, hcheck, s, -, r', o', hled, t, -, s', -, rfl⟩ := h
    obtain ⟨-, hk, hr, -, ho⟩ := DebtAccounts.check_ok hcheck
    exact ⟨r, o, r', o', Pubkey.ne_default hk, hr, ho, Ledger.privateBorrow_ok hled,
      store_self _ _ _, store_self _ _ _⟩

/-- In every run, the slots follow their reserves. -/
theorem slotsFollow_run (mxe : Mxe) (clock : Clock) (ixs : List Instruction) :
    (ixs.foldl (tx mxe) (genesis clock)).SlotsFollow := by
  have hb := ordered_run mxe clock ixs
  generalize ixs.foldl (tx mxe) (genesis clock) = w at hb
  have hbehind (x : Pubkey) (o : Obligation) (i : Fin maxBorrowCountInReserve)
      (ho : w.obligations x = some o) : o.borrows[i].Behind w.reserves := hb.slots x o ho i
  refine ⟨fun x o i ho hl => hbehind x o i ho hl, ?_, ?_⟩
  · intro x o t i r c e ho ht hr hc he
    have hspec := Obligation.accrueInterest_spec t i c
    generalize t.accrueInterest i c = out at hspec he
    have hle (hl : borrowLayout.Live o.borrows[i]) : 10 ^ 12 ≤
        o.borrows[i].cumulativeBorrowRateSf.toNat ∧
          o.borrows[i].cumulativeBorrowRateSf.toNat ≤ c.toNat := by
      obtain ⟨hone, q, hq, hle⟩ := hbehind x o i ho hl
      cases hr.symm.trans hq
      rcases hc with rfl | ⟨r₁, hacc, rfl⟩
      · exact ⟨hone, hle⟩
      · exact ⟨hone, hle.trans (Reserve.accrues_of_ok hacc).rate_le⟩
    -- a slot behind its reserve never finds the index decreased, or its own at zero
    cases hspec with
    | inactive | same | grown => cases he
    | decreased hl hlt =>
        rw [ht] at hl hlt
        exact absurd hlt (Nat.not_lt.mpr (hle hl).2)
    | overflow hl _ hbig =>
        rw [ht] at hl hbig
        cases he
        refine ⟨rfl, hbig.resolve_right fun hzero => ?_⟩
        have hone := (hle hl).1
        omega
  · intro a amount w' h
    obtain ⟨r, o, r', o', hk, hr, ho, hled, ho', hr'⟩ := borrows_ok h
    have hpos : 0 < r'.liquidity.cumulativeBorrowRateSf.toNat :=
      Nat.lt_of_lt_of_le (by decide) ((hb.index _ r hr).trans hled.reaccrued.index_le)
    obtain ⟨i, hf, hrate, hdebt⟩ := hled.slot hk hpos
    exact ⟨o, o', r', i, ho, ho', hr', hf, hrate, hdebt⟩

end World

end VeilVault
