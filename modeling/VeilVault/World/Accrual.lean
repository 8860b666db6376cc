/-
# VeilVault.World.Accrual — interest over whole runs.

Every instruction that moves a reserve's books accrues it first, and an accrual is a function of the
books as they were when the last one ended.  So nobody can influence the interest of the time that
has passed by what is done, or by the order in which it is done, in the slot that charges it; only
the owner can, by updating the configuration before the accrual (`interest_order_free`).

What accrues to the protocol stays: no instruction lowers the recorded fees, and none pays out of a
fee vault (`fees_kept`).  And an accrual that overflows is final: it fails again at every later
slot, every instruction on the reserve fails with it, and everything in the reserve stays where it
is (`overflow_run`).
-/
import VeilVault.Reserve.Overflow
import VeilVault.World.FreshPrices
import VeilVault.World.Switches

namespace VeilVault

open Kit

namespace Reserve

variable {r r' r'' : Reserve}

theorem SameInterest.refl (r : Reserve) : r.SameInterest r := ⟨rfl, rfl, rfl, rfl⟩

theorem SameInterest.symm (h : r.SameInterest r') : r'.SameInterest r :=
  ⟨h.config.symm, h.lastUpdateSlot.symm, h.index.symm, h.fees.symm⟩

theorem SameInterest.trans (h : r.SameInterest r') (h' : r'.SameInterest r'') :
    r.SameInterest r'' :=
  ⟨h'.config.trans h.config, h'.lastUpdateSlot.trans h.lastUpdateSlot, h'.index.trans h.index,
    h'.fees.trans h.fees⟩

theorem fees_le_of_accrueInterest {s : U64} (h : r.accrueInterest s = .ok r') :
    r.liquidity.accumulatedProtocolFees.toNat ≤ r'.liquidity.accumulatedProtocolFees.toNat := by
  rcases accrueInterest_ok h with ⟨-, rfl⟩ | ⟨-, bps, -, ⟨-, rfl⟩ | ⟨-, l', hl, rfl⟩⟩
  · exact le_refl _
  · exact le_refl _
  · obtain ⟨-, -, -, d, i, f, -, -, hf, rfl⟩ := ReserveLiquidity.accuredInterest_ok hl
    exact Nat.le.intro hf.symm

end Reserve

namespace World

variable {mxe : Mxe} {w w' : World} {ix : Instruction} {k : Pubkey} {r r' : Reserve}

/-! ## Within a slot -/

/-- The reserve is as it was, or its interest is that of one accrual of it. -/
def AccruedOnce (slot : U64) (r r' : Reserve) : Prop :=
  r' = r ∨ ∃ r₁, r.accrueInterest slot = .ok r₁ ∧ r₁.SameInterest r'

theorem AccruedOnce.change (h : AccruedOnce w.clock.slot r r')
    (hr' : w.reserves k = some r') {r'' : Reserve} (hchange : w.ReserveChange ix k r' r'')
    (hno : ∀ owner M mint c, ix ≠ .updateReserveConfig owner M mint k c) :
    AccruedOnce w.clock.slot r r'' := by
  rcases hchange.steps hr' with ⟨owner, M, mint, c, -, hix, -⟩ | ⟨r₁, hacc, hmove⟩
  · exact absurd hix (hno owner M mint c)
  · rcases h with rfl | ⟨r₀, hacc₀, hsame⟩
    · exact .inr ⟨r₁, hacc, hmove.sameInterest⟩
    · -- the second accrual of a slot does nothing
      have hcurrent : r'.accrueInterest w.clock.slot = .ok r' := by
        apply Reserve.accrueInterest_current
        rw [hsame.lastUpdateSlot]
        exact (Reserve.accrues_of_ok hacc₀).slot_le
      cases hcurrent.symm.trans hacc
      exact .inr ⟨r₀, hacc₀, hsame.trans hmove.sameInterest⟩

theorem accruedOnce_run (mxe : Mxe) (w : World) (ixs : List Instruction)
    (hr : w.reserves k = some r) (hclock : ∀ ix ∈ ixs, ix.time = none)
    (hno : ∀ ix ∈ ixs, ∀ owner M mint c, ix ≠ .updateReserveConfig owner M mint k c) :
    ∃ r', (ixs.foldl (tx mxe) w).reserves k = some r' ∧ AccruedOnce w.clock.slot r r' := by
  let Inv : World → Prop := fun v =>
    v.clock = w.clock ∧ ∃ r', v.reserves k = some r' ∧ AccruedOnce w.clock.slot r r'
  have hstart : Inv w := ⟨rfl, r, hr, .inl rfl⟩
  have hrun : Inv (ixs.foldl (tx mxe) w) := by
    apply run_invariant ixs hstart
    rintro ix hix v v' ⟨hv, r', hr', honce⟩ h
    refine ⟨(exec_clock h (hclock ix hix)).trans hv, ?_⟩
    obtain ⟨r'', hr'', rfl | hchange⟩ := exec_reserve_at h hr'
    · exact ⟨_, hr'', honce⟩
    · rw [← hv] at honce ⊢
      exact ⟨r'', hr'', honce.change hr' hchange (hno ix hix)⟩
  exact hrun.2

/-- Two runs within one slot, of whatever instructions but updates of the reserve's configuration,
leave the same index, the same fees and the same terms, if both of them reach the reserve. -/
theorem interest_order_free (mxe : Mxe) (w : World) (ixs₁ ixs₂ : List Instruction) (k : Pubkey)
    (r r₁ r₂ : Reserve) (hr : w.reserves k = some r)
    (hclock : ∀ ix ∈ ixs₁ ++ ixs₂, ix.time = none)
    (hno : ∀ ix ∈ ixs₁ ++ ixs₂, ∀ owner M mint c, ix ≠ .updateReserveConfig owner M mint k c)
    (h₁ : (ixs₁.foldl (tx mxe) w).reserves k = some r₁)
    (h₂ : (ixs₂.foldl (tx mxe) w).reserves k = some r₂)
    (hslot₁ : w.clock.slot.toNat ≤ r₁.lastUpdateSlot.toNat)
    (hslot₂ : w.clock.slot.toNat ≤ r₂.lastUpdateSlot.toNat) : r₁.SameInterest r₂ := by
  -- a reserve that is current is its own accrual
  have haccrued {r' : Reserve} (h : AccruedOnce w.clock.slot r r')
      (hslot : w.clock.slot.toNat ≤ r'.lastUpdateSlot.toNat) :
      ∃ r₀, r.accrueInterest w.clock.slot = .ok r₀ ∧ r₀.SameInterest r' := by
    rcases h with rfl | h
    · exact ⟨_, Reserve.accrueInterest_current hslot, .refl _⟩
    · exact h
  obtain ⟨r₁', hr₁, honce₁⟩ := accruedOnce_run mxe w ixs₁ hr
    (fun ix hix => hclock ix (List.mem_append_left _ hix))
    (fun ix hix => hno ix (List.mem_append_left _ hix))
  obtain ⟨r₂', hr₂, honce₂⟩ := accruedOnce_run mxe w ixs₂ hr
    (fun ix hix => hclock ix (List.mem_append_right _ hix))
    (fun ix hix => hno ix (List.mem_append_right _ hix))
  cases hr₁.symm.trans h₁
  cases hr₂.symm.trans h₂
  obtain ⟨r₀, hacc, hsame₁⟩ := haccrued honce₁ hslot₁
  obtain ⟨r₀', hacc', hsame₂⟩ := haccrued honce₂ hslot₂
  cases hacc.symm.trans hacc'
  exact hsame₁.symm.trans hsame₂

/-- A loan, and half a million slots. -/
def lentWorld : World :=
  [.borrow (debtOf 1) 1000, .advanceClock ⟨500000, 0⟩].foldl (tx plainMxe) joinedWorld

def refreshFirst : List Instruction := [refreshPool 0, .repay (debtOf 1) 10]

def payFirst : List Instruction := [.deposit (liquidityOf 1) 100, refreshPool 0]

theorem interest_order_free_lent : ∃ r₁ r₂,
    (refreshFirst.foldl (tx plainMxe) lentWorld).reserves usdReserve = some r₁ ∧
      (payFirst.foldl (tx plainMxe) lentWorld).reserves usdReserve = some r₂ ∧
      r₁.SameInterest r₂ := by
  have hsome : (lentWorld.reserves usdReserve).isSome = true := by decide +kernel
  have hcurrent : ∀ ixs ∈ [refreshFirst, payFirst],
      ((ixs.foldl (tx plainMxe) lentWorld).reserves usdReserve).any
        (fun r => lentWorld.clock.slot.toNat ≤ r.lastUpdateSlot.toNat) = true := by
    decide +kernel
  obtain ⟨r, hr⟩ := Option.isSome_iff_exists.mp hsome
  obtain ⟨r₁, h₁, hslot₁⟩ := (Option.any_eq_true _ _).mp (hcurrent _ (List.mem_cons_self ..))
  obtain ⟨r₂, h₂, hslot₂⟩ := (Option.any_eq_true _ _).mp
    (hcurrent _ (List.mem_cons_of_mem _ (List.mem_cons_self ..)))
  refine ⟨r₁, r₂, h₁, h₂, interest_order_free plainMxe lentWorld refreshFirst payFirst usdReserve r
    r₁ r₂ hr (by decide) ?_ h₁ h₂ (of_decide_eq_true hslot₁) (of_decide_eq_true hslot₂)⟩
  intro ix hix owner M mint c
  simp only [refreshFirst, payFirst, refreshPool, List.cons_append, List.nil_append,
    List.mem_cons, List.not_mem_nil, or_false] at hix
  rcases hix with rfl | rfl | rfl | rfl <;> exact nofun

end World

/-! ## Protocol fees -/

namespace Books

variable {b b' : Books} {clock : Clock} {accrued : List Pubkey}

/-- Nothing is ever paid out of a fee vault. -/
theorem Step.feeVault_le (hb : b.Backed) (h : Step clock b accrued b') (k : Pubkey) :
    b.tokens.balance (.feeVault k) ≤ b'.tokens.balance (.feeVault k) := by
  have hg := hb.guarded
  have hin {t t' : TokenLedger Pubkey} {source mint target user : Pubkey} {a : U64}
      (hg : Guarded t) (hsign : user.isWallet = true)
      (h : t.transfer source mint target user a = .ok t') :
      t.balance (.feeVault k) ≤ t'.balance (.feeVault k) :=
    Nat.le.intro (hg.paidIn hsign h (x := .feeVault k) rfl).symm
  cases h with
  | idle | updateConfig | refreshReserve | initObligation | refreshObligation => exact le_refl _
  | wallet h => exact (hg.walletCall h).balance _ rfl
  | addReserve hmarket hk hnew hcreate h₁ h₂ h₃ h₄ =>
      exact (opened h₁ h₂ h₃ h₄ hg hmarket).balance _ rfl
  | deposit hr hsign h h₁ h₂ => exact (hin hg hsign h₁).trans (balance_mintTo_le h₂ _)
  | withdraw hr hsign h h₁ h₂ =>
      exact (hg.burnt hsign h₁ rfl).ge.trans (paidOut_of_ne h₂ Pubkey.noConfusion)
  | depositCollateral ho hk hsign h h₁ => exact hin hg hsign h₁
  | withdrawCollateral ho hk h h₁ => exact paidOut_of_ne h₁ Pubkey.noConfusion
  | borrow ho hk hr h h₁ => exact paidOut_of_ne h₁ Pubkey.noConfusion
  | repay ho hk hr hsign h h₁ => exact hin hg hsign h₁
  | seize ho hsign h h₁ h₂ =>
      exact (hin hg hsign h₁).trans (paidOut_of_ne h₂ Pubkey.noConfusion)

end Books

namespace World

variable {mxe : Mxe} {w w' : World} {ix : Instruction} {k : Pubkey} {r r' : Reserve}

theorem ReserveChange.fees_le (h : w.ReserveChange ix k r r') (hr : w.reserves k = some r) :
    r.liquidity.accumulatedProtocolFees.toNat ≤ r'.liquidity.accumulatedProtocolFees.toNat := by
  rcases h.steps hr with ⟨-, -, -, c, -, -, -, -, hupdate⟩ | ⟨r₁, hacc, hmove⟩
  · rw [(Reserve.updateConfig_ok hupdate).1]
  · rw [hmove.sameInterest.fees]
    exact Reserve.fees_le_of_accrueInterest hacc

/-- What a reserve has put by for the protocol: as much as before, on the books and in the vault. -/
structure FeesKept (k : Pubkey) (w w' : World) : Prop where
  recorded : ∀ r, w.reserves k = some r → ∃ r', w'.reserves k = some r' ∧
    r.liquidity.accumulatedProtocolFees.toNat ≤ r'.liquidity.accumulatedProtocolFees.toNat
  vault : w.tokens.balance (.feeVault k) ≤ w'.tokens.balance (.feeVault k)

/-- Protocol fees only accumulate: whatever is run, no reserve records less than before, and no
token leaves a fee vault. -/
theorem fees_kept (mxe : Mxe) (clock : Clock) (ixs later : List Instruction) (k : Pubkey) :
    FeesKept k (ixs.foldl (tx mxe) (genesis clock))
      (later.foldl (tx mxe) (ixs.foldl (tx mxe) (genesis clock))) := by
  have hb := backed_run mxe clock ixs
  generalize ixs.foldl (tx mxe) (genesis clock) = w at hb
  have hstart : FeesKept k w w := ⟨fun r hr => ⟨r, hr, le_refl _⟩, le_refl _⟩
  apply backed_invariant later hb hstart
  intro ix _ v v' hv hkept h
  refine ⟨fun r hr => ?_, hkept.vault.trans ((exec_step h).feeVault_le hv k)⟩
  obtain ⟨r', hr', hle⟩ := hkept.recorded r hr
  obtain ⟨r'', hr'', rfl | hchange⟩ := exec_reserve_at h hr'
  · exact ⟨_, hr'', hle⟩
  · exact ⟨r'', hr'', hle.trans (hchange.fees_le hr')⟩

/-! ## Overflow -/

/-- A reserve that cannot be accrued refuses every payment. -/
theorem refuses_of_overflow (hr : w.reserves k = some r)
    (hstuck : ∀ r', r.accrueInterest w.clock.slot ≠ .ok r') : w.Refuses k where
  borrow q q' o o' a hq _ h := by
    cases hr.symm.trans hq
    obtain ⟨r₁, o₁, hacc, -⟩ := h.steps
    exact hstuck r₁ hacc
  repay q q' o o' a hq h := by
    cases hr.symm.trans hq
    obtain ⟨r₁, i, o₁, hacc, -⟩ := Ledger.repay_ok h
    exact hstuck r₁ hacc
  seize gate withdrawKey o a s h := by
    obtain ⟨q, r₁, p, p₁, i, j, o₁, hs⟩ := Ledger.seize_parts h
    cases hr.symm.trans hs.repayReserve
    exact hstuck r₁ hs.repayAccrued

theorem exec_slot_le (h : w.exec mxe ix = .ok w') : w.clock.slot.toNat ≤ w'.clock.slot.toNat := by
  cases htime : ix.time with
  | none => rw [exec_clock h htime]
  | some clock =>
      obtain rfl := Instruction.time_eq_some.mp htime
      simp only [exec, World.advanceClock, bind_eq_ok, require_eq_ok, exists_const,
        pure_eq_ok] at h
      obtain ⟨hle, -, rfl⟩ := h
      exact hle

/-- Once the accrual of a reserve overflows, the reserve is never written again, unless its owner
updates its configuration: no payment goes in or out of it, and no debt in it is settled. -/
theorem overflow_run (mxe : Mxe) (clock : Clock) (ixs later : List Instruction) (w : World)
    (k : Pubkey) (r : Reserve) (hrun : ixs.foldl (tx mxe) (genesis clock) = w)
    (hr : w.reserves k = some r) (hstuck : ∀ r', r.accrueInterest w.clock.slot ≠ .ok r')
    (hno : ∀ ix ∈ later, ∀ owner M mint c, ix ≠ .updateReserveConfig owner M mint k c) :
    (later.foldl (tx mxe) w).reserves k = some r ∧ Idle k w (later.foldl (tx mxe) w) := by
  have hb : w.books.Backed := hrun ▸ backed_run mxe clock ixs
  let Inv : World → Prop := fun v => w.clock.slot.toNat ≤ v.clock.slot.toNat ∧
    v.reserves k = some r ∧ Idle k w v
  have hstart : Inv w := ⟨le_refl _, hr, .refl k w⟩
  have hlater : Inv (later.foldl (tx mxe) w) := by
    apply backed_invariant later hb hstart
    rintro ix hix v v' hv ⟨hslot, hrv, hidle⟩ h
    have hstuckv : ∀ r', r.accrueInterest v.clock.slot ≠ .ok r' := by
      intro r' hr'
      obtain ⟨r'', hr''⟩ := Reserve.accrueInterest_mono hslot ⟨r', hr'⟩
      exact hstuck r'' hr''
    have hsame : v'.reserves k = some r := by
      obtain ⟨r', hr', rfl | hchange⟩ := exec_reserve_at h hrv
      · exact hr'
      · rcases hchange.steps hrv with ⟨owner, M, mint, c, -, he, -⟩ | ⟨r₁, hacc, -⟩
        · exact absurd he (hno ix hix owner M mint c)
        · exact absurd hacc (hstuckv r₁)
    refine ⟨hslot.trans (exec_slot_le h), hsame, ?_⟩
    exact hidle.trans (exec_idle hv hrv hsame rfl rfl rfl (refuses_of_overflow hrv hstuckv) h)
  exact hlater.2

/-- The pool's rates are set as high as they go, and the chain runs until its slots are almost used
up. -/
def endless : List Instruction :=
  joinedRun ++ [.borrow (debtOf 1) 1000,
    .updateReserveConfig (.key 1) poolMarket usd usdReserve
      { flatRate with
        minBorrowRateBps := 65535, optimalBorrowRateBps := 65535, maxBorrowRateBps := 65535 },
    .advanceClock ⟨9223372036854775808, 0⟩, refreshPool 0, .advanceClock ⟨18446744073709551615, 0⟩]

def endlessWorld : World := endless.foldl (tx plainMxe) (genesis ⟨0, 0⟩)

theorem overflow_run_endless : ∃ r, endlessWorld.reserves usdReserve = some r ∧
    ([refreshPool 0, .repay (debtOf 1) 10].foldl (tx plainMxe) endlessWorld).reserves usdReserve =
      some r := by
  have hstuck : (endlessWorld.reserves usdReserve).any
      (fun r => !(r.accrueInterest endlessWorld.clock.slot).isOk) = true := by decide +kernel
  obtain ⟨r, hr, hfail⟩ := (Option.any_eq_true _ _).mp hstuck
  refine ⟨r, hr, (overflow_run plainMxe ⟨0, 0⟩ endless _ endlessWorld usdReserve r rfl hr ?_ ?_).1⟩
  · intro r' hr'
    rw [hr'] at hfail
    cases hfail
  · intro ix hix owner M mint c
    simp only [refreshPool, List.mem_cons, List.not_mem_nil, or_false] at hix
    rcases hix with rfl | rfl <;> exact nofun

end World

end VeilVault
