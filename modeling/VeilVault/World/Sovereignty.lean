/-
# VeilVault.World.Sovereignty — what nobody can do in a user's name.

Without a wallet's signature no token leaves its accounts (`unsigned_tokens`).  To an obligation
somebody else's instruction does one of two things: it refreshes it, or it liquidates it
(`ForeignChange`).  A liquidation needs a debt to repay, so collateral without a debt is safe from
everybody but its owner (`unsigned_collateral`); and it repays at most half of the debt, so a loan
that exists is ended by its borrower or by nobody (`unsigned_loan`).  Nor does anybody else make a
loan larger than interest does: it grows by at most the factor of its reserve's index
(`unsigned_debt`).
-/
import VeilVault.Ledger.Standing
import VeilVault.World.Indices
import VeilVault.World.Isolation

namespace VeilVault

open Kit Kit.Outcome

namespace World

variable {mxe : Mxe} {w w' : World} {ix : Instruction} {u x : Pubkey} {o o' : Obligation}

/-! ## Token accounts -/

/-- A wallet whose signature is not on the transaction signs none of its token calls. -/
theorem not_signed_of_signer (hu : u.isWallet = true) (hno : ix.signer ≠ some u)
    (h : w.exec mxe ix = .ok w') : ¬ ix.signed u := by
  rintro (hsigner | hmarket)
  · exact hno hsigner
  · have hnames := Instruction.lendingMarket_of_signingMarket hmarket
    rcases exec_checks_market h hnames with ⟨owner, fee, rfl⟩ | ⟨x, accounts, rfl⟩ | ⟨m, hm⟩
    · cases hmarket
    · cases hmarket
    · rw [(market_ok hm).2] at hu
      cases hu

/-- Whatever is run without a wallet's signature, no token leaves the wallet's accounts, and none is
issued by its mints. -/
theorem unsigned_tokens (mxe : Mxe) (w : World) (later : List Instruction) (u : Pubkey)
    (hu : u.isWallet = true) (hno : ∀ ix ∈ later, ix.signer ≠ some u) :
    w.tokens.Spared u (later.foldl (tx mxe) w).tokens := by
  let Inv : World → Prop := fun v => w.tokens.Spared u v.tokens
  have hstart : Inv w := TokenLedger.spared_refl _ _
  apply run_invariant later hstart
  intro ix hix v v' hv h
  exact hv.trans ((exec_calls h).spared (not_signed_of_signer hu (hno ix hix) h))

/-- Somebody reaches for the first user's dollars, and refreshes the user's obligation. -/
def reach : List Instruction :=
  [.transferTokens (.key 101) usd (.liquidityVault usdReserve) (.key 2) 1, refreshPool 1,
    refreshUser 1]

theorem reach_unsigned : ∀ ix ∈ reach, ix.signer ≠ some (.key 1) := by decide

theorem unsigned_tokens_joined :
    joinedWorld.tokens.Spared (.key 1) (reach.foldl (tx plainMxe) joinedWorld).tokens :=
  unsigned_tokens plainMxe joinedWorld reach (.key 1) rfl reach_unsigned

/-! ## Obligations -/

/-- What somebody else's instruction does to an obligation. -/
inductive ForeignChange (w : World) (o : Obligation) : Obligation → Prop
  | same : ForeignChange w o o
  | refresh {accounts : List Pubkey} {o' : Obligation}
      (h : Ledger.refreshObligation w.reserves accounts w.clock o = .ok o') : ForeignChange w o o'
  | seize {gate : Obligation → Result Unit} {repayKey withdrawKey : Pubkey} {a : U64}
      {s : Ledger.Seizure}
      (h : Ledger.seize gate w.clock repayKey withdrawKey w.reserves o a = .ok s) :
      ForeignChange w o s.obligation

theorem exec_foreign (ha : w.Addressed) (ho : w.obligations x = some o)
    (hno : ix.signer ≠ some o.owner) (h : w.exec mxe ix = .ok w') :
    ∃ o', w'.obligations x = some o' ∧ w.ForeignChange o o' := by
  obtain ⟨o', ho', rfl | hchange⟩ := exec_obligation_at h ho
  · exact ⟨o', ho', .same⟩
  · refine ⟨o', ho', ?_⟩
    have hown {M user k : Pubkey} {m : LendingMarket} {r : Reserve}
        (hown : w.Own ix x M user k m r) : False := by
      have hx := (ha.obligations x o ho).symm.trans hown.obligation
      rw [Pubkey.obligation.injEq] at hx
      exact hno (hx.2 ▸ hown.signer)
    cases hchange with
    | refresh _ h => exact .refresh h
    | deposit h _ _ _ | withdraw h _ | borrow h _ _ _ | repay h _ => exact (hown h).elim
    | seize _ h => exact .seize h

theorem ForeignChange.sameHolder (h : w.ForeignChange o o') : o.SameHolder o' := by
  cases h with
  | same => exact .refl o
  | refresh h => exact (Ledger.frame_refreshObligation h).1
  | seize h => exact (Ledger.frame_seize h).1

theorem ForeignChange.wholeDebts (h : w.ForeignChange o o') (ho : o.WholeDebts) :
    o'.WholeDebts := by
  cases h with
  | same => exact ho
  | refresh h => exact ho.of_slotwise (Obligation.refresh_slotwise (fun _ _ hk hd => ⟨hk, hd⟩) h)
  | seize h => exact Ledger.seize_wholeDebts h ho

/-- Nobody else settles a debt. -/
theorem ForeignChange.kept (h : w.ForeignChange o o') :
    Slotwise ObligationLiquidity.Kept o.borrows o'.borrows := by
  cases h with
  | same => exact slotwise_refl ObligationLiquidity.kept_refl _
  | refresh h => exact Obligation.refresh_slotwise (fun _ _ hkey _ _ => hkey) h
  | seize h => exact Ledger.seize_kept h

/-- Nobody else adds to a debt, but interest. -/
theorem ForeignChange.inflated (h : w.ForeignChange o o') :
    Slotwise ObligationLiquidity.Inflated o.borrows o'.borrows := by
  cases h with
  | same => exact slotwise_refl ObligationLiquidity.inflated_refl _
  | refresh h =>
      obtain ⟨-, hgrown, -⟩ := Ledger.refreshObligation_ok h
      exact fun i => ObligationLiquidity.inflated_of_grown (hgrown i)
  | seize h => exact Ledger.seize_inflated h

end World

namespace Obligation

/-- No borrow slot is in use. -/
def DebtFree (o : Obligation) : Prop :=
  ∀ i : Fin maxBorrowCountInReserve, ¬ borrowLayout.Live o.borrows[i]

end Obligation

namespace World

variable {mxe : Mxe} {w w' : World} {ix : Instruction} {u x : Pubkey} {o o' : Obligation}

/-- Without a debt there is nothing to liquidate. -/
theorem ForeignChange.debtFree (h : w.ForeignChange o o') (hw : w.Linked) (ho : o.DebtFree) :
    o'.DebtFree ∧ Slotwise Ledger.Revalued o.deposits o'.deposits := by
  cases h with
  | same => exact ⟨ho, slotwise_refl (fun _ => ⟨rfl, rfl⟩) _⟩
  | refresh h =>
      obtain ⟨-, hgrown, hrevalued⟩ := Ledger.refreshObligation_ok h
      exact ⟨fun i hl => ho i fun hfree => hl ((hgrown i).1.trans hfree), hrevalued⟩
  | seize h =>
      obtain ⟨r, r₁, q, q₁, i, j, o₁, hs⟩ := Ledger.seize_parts h
      have hkey := (hw.wellFormed _ r hs.repayReserve).key
      have hne := Pubkey.ne_default (not_wallet_of_seeds hkey)
      exact absurd (Obligation.borrow_live hne (Obligation.findBorrow_eq_ok.mp hs.borrow).1) (ho i)

/-- Collateral without a debt stays where it is, whatever is run without its owner's signature. -/
theorem unsigned_collateral (mxe : Mxe) (clock : Clock) (ixs later : List Instruction) (w : World)
    (M u : Pubkey) (o : Obligation) (hrun : ixs.foldl (tx mxe) (genesis clock) = w)
    (ho : w.obligations (.obligation M u) = some o) (hfree : o.DebtFree)
    (hno : ∀ ix ∈ later, ix.signer ≠ some u) :
    ∃ o', (later.foldl (tx mxe) w).obligations (.obligation M u) = some o' ∧
      o'.DebtFree ∧ Slotwise Ledger.Revalued o.deposits o'.deposits := by
  have hw : w.Linked := hrun ▸ linked_run mxe clock ixs
  have ha : w.Addressed := hrun ▸ addressed_run mxe clock ixs
  let Inv : World → Prop := fun v => v.Linked ∧ v.Addressed ∧
    ∃ o', v.obligations (.obligation M u) = some o' ∧
      o'.DebtFree ∧ Slotwise Ledger.Revalued o.deposits o'.deposits
  have hstart : Inv w := ⟨hw, ha, o, ho, hfree, slotwise_refl (fun _ => ⟨rfl, rfl⟩) _⟩
  have hlater : Inv (later.foldl (tx mxe) w) := by
    apply run_invariant later hstart
    rintro ix hix v v' ⟨hv, hva, p, hp, hpfree, hdeposits⟩ h
    have howner := hva.obligations _ p hp
    rw [Pubkey.obligation.injEq] at howner
    obtain ⟨p', hp', hforeign⟩ := exec_foreign hva hp (howner.2 ▸ hno ix hix) h
    obtain ⟨hfree', hrevalued⟩ := hforeign.debtFree hv hpfree
    refine ⟨hv.exec hva h, hva.exec h, p', hp', hfree', fun i => ?_⟩
    exact ⟨(hrevalued i).1.trans (hdeposits i).1, (hrevalued i).2.trans (hdeposits i).2⟩
  exact hlater.2.2

theorem unsigned_collateral_joined : ∃ o o',
    joinedWorld.obligations (.obligation poolMarket (.key 1)) = some o ∧
      (reach.foldl (tx plainMxe) joinedWorld).obligations (.obligation poolMarket (.key 1)) =
        some o' ∧ o'.DebtFree ∧ Slotwise Ledger.Revalued o.deposits o'.deposits := by
  have hsome : (joinedWorld.obligations (.obligation poolMarket (.key 1))).any
      (fun o => decide (∀ i : Fin maxBorrowCountInReserve,
        o.borrows[i].borrowReserve = default)) = true := by decide +kernel
  obtain ⟨o, ho, hfree⟩ := (Option.any_eq_true _ _).mp hsome
  have hfree : o.DebtFree := fun i hl => hl (of_decide_eq_true hfree i)
  obtain ⟨o', ho', hkept⟩ := unsigned_collateral plainMxe ⟨0, 0⟩ joinedRun reach joinedWorld
    poolMarket (.key 1) o rfl ho hfree reach_unsigned
  exact ⟨o, o', ho, ho', hkept⟩

/-! ## Loans -/

theorem ObligationChange.wholeDebts (h : w.ObligationChange ix x o o') (ho : o.WholeDebts) :
    o'.WholeDebts := by
  cases h with
  | refresh _ h => exact ForeignChange.wholeDebts (w := w) (.refresh h) ho
  | deposit hown _ _ h => exact ho.congr (Obligation.borrows_deposit hown.ne_default h)
  | withdraw _ h =>
      obtain ⟨i, mv, -, -, hwd, -⟩ := Ledger.withdrawCollateral_ok h
      have hsame := Obligation.borrows_withdraw hwd
      exact ho.congr hsame
  | borrow hown _ _ h =>
      obtain ⟨r₁, o₁, -, -, hacc, hbor⟩ := h.steps
      exact (ho.accrueExisting hacc).borrow hown.ne_default hbor
  | repay _ h =>
      obtain ⟨r₁, i, o₁, -, -, -, hacc, hrep⟩ := Ledger.repay_ok h
      exact (ho.accrueInterest hacc).repay hrep
  | seize _ h => exact Ledger.seize_wholeDebts h ho

/-- Every slot in use of every obligation owes at least one whole unit. -/
def WholeDebts (w : World) : Prop := ∀ x o, w.obligations x = some o → o.WholeDebts

theorem WholeDebts.exec (hw : w.WholeDebts) (h : w.exec mxe ix = .ok w') : w'.WholeDebts := by
  rcases exec_obligation h with hsame | ⟨y, owner, M, m, -, -, -, -, -, hstore⟩ |
    ⟨y, p, o', hp, hchange, hstore⟩
  · rw [WholeDebts, hsame]
    exact hw
  · rw [WholeDebts, hstore]
    exact forall_store hw (Obligation.wholeDebts_init owner M)
  · rw [WholeDebts, hstore]
    exact forall_store hw (hchange.wholeDebts (hw y p hp))

theorem wholeDebts_run (mxe : Mxe) (clock : Clock) (ixs : List Instruction) :
    (ixs.foldl (tx mxe) (genesis clock)).WholeDebts := by
  have hstart : (genesis clock).WholeDebts := nofun
  exact run_invariant ixs hstart fun _ _ _ _ hv h => hv.exec h

/-- A loan outlives every liquidation: whatever is run without the borrower's signature, a slot in
use stays in use for the same reserve, and owes at least one whole unit. -/
theorem unsigned_loan (mxe : Mxe) (clock : Clock) (ixs later : List Instruction) (w : World)
    (M u : Pubkey) (o : Obligation) (i : Fin maxBorrowCountInReserve)
    (hrun : ixs.foldl (tx mxe) (genesis clock) = w)
    (ho : w.obligations (.obligation M u) = some o) (hi : borrowLayout.Live o.borrows[i])
    (hno : ∀ ix ∈ later, ix.signer ≠ some u) :
    ∃ o', (later.foldl (tx mxe) w).obligations (.obligation M u) = some o' ∧
      o'.borrows[i].borrowReserve = o.borrows[i].borrowReserve ∧
      10 ^ 12 ≤ o'.borrows[i].borrowedAmountSf.toNat := by
  have hw : w.WholeDebts := hrun ▸ wholeDebts_run mxe clock ixs
  have ha : w.Addressed := hrun ▸ addressed_run mxe clock ixs
  let Inv : World → Prop := fun v => v.WholeDebts ∧ v.Addressed ∧
    ∃ o', v.obligations (.obligation M u) = some o' ∧
      Slotwise ObligationLiquidity.Kept o.borrows o'.borrows
  have hstart : Inv w := ⟨hw, ha, o, ho, slotwise_refl ObligationLiquidity.kept_refl _⟩
  have hlater : Inv (later.foldl (tx mxe) w) := by
    apply run_invariant later hstart
    rintro ix hix v v' ⟨hv, hva, p, hp, hkept⟩ h
    have howner := hva.obligations _ p hp
    rw [Pubkey.obligation.injEq] at howner
    obtain ⟨p', hp', hforeign⟩ := exec_foreign hva hp (howner.2 ▸ hno ix hix) h
    exact ⟨hv.exec h, hva.exec h, p', hp',
      hkept.trans (fun _ _ _ => ObligationLiquidity.Kept.trans) hforeign.kept⟩
  obtain ⟨hv, -, p, hp, hkept⟩ := hlater
  have hkey := hkept i hi
  exact ⟨p, hp, hkey, hv _ p hp i fun hfree => hi (hkey.symm.trans hfree)⟩

/-- The first user of the joined world with a loan, and a third user with dollars to liquidate
with. -/
def borrowedRun : List Instruction :=
  joinedRun ++
    [.borrow (debtOf 1) 1000, .openTokenAccount (.key 103) usd (.key 3),
      .openTokenAccount (.key 203) (.collateralMint usdReserve) (.key 3),
      .mintTokens usd (.key 103) (.key 1) 1000]

def borrowedWorld : World := borrowedRun.foldl (tx plainMxe) (genesis ⟨0, 0⟩)

/-- A year's interest, and a liquidation of 300, without the first user. -/
def foreclosure : List Instruction :=
  [.advanceClock ⟨63072000, 31536000⟩, refreshPool 31536000, refreshUser 1,
    .liquidate (seizeFrom 1).toLiquidationAccounts 300]

theorem foreclosure_unsigned : ∀ ix ∈ foreclosure, ix.signer ≠ some (.key 1) := by decide

theorem foreclosure_ok : EachStep (tx plainMxe) (fun w ix => (w.exec plainMxe ix).isOk = true)
    borrowedWorld foreclosure := by decide +kernel

theorem borrowedRun_slot : ∃ o : Obligation,
    borrowedWorld.obligations (.obligation poolMarket (.key 1)) = some o ∧
      o.borrows[(0 : Fin maxBorrowCountInReserve)].borrowReserve = usdReserve ∧
      o.borrows[(0 : Fin maxBorrowCountInReserve)].borrowedAmountSf = 1000 * rateScale ∧
      o.borrows[(0 : Fin maxBorrowCountInReserve)].cumulativeBorrowRateSf = rateScale := by
  have hsome : (borrowedWorld.obligations (.obligation poolMarket (.key 1))).any
      (fun o => o.borrows[(0 : Fin maxBorrowCountInReserve)].borrowReserve = usdReserve ∧
        o.borrows[(0 : Fin maxBorrowCountInReserve)].borrowedAmountSf = 1000 * rateScale ∧
        o.borrows[(0 : Fin maxBorrowCountInReserve)].cumulativeBorrowRateSf = rateScale) =
        true := by decide +kernel
  obtain ⟨o, ho, hslot⟩ := (Option.any_eq_true _ _).mp hsome
  exact ⟨o, ho, of_decide_eq_true hslot⟩

theorem live_of_usd {b : ObligationLiquidity} (h : b.borrowReserve = usdReserve) :
    borrowLayout.Live b :=
  fun hfree => absurd (h.symm.trans hfree) (by decide)

/-- The slot survives a year's interest and an accepted liquidation. -/
theorem unsigned_loan_foreclosed : ∃ o o' : Obligation,
    borrowedWorld.obligations (.obligation poolMarket (.key 1)) = some o ∧
      EachStep (tx plainMxe) (fun w ix => (w.exec plainMxe ix).isOk = true) borrowedWorld
        foreclosure ∧
      (foreclosure.foldl (tx plainMxe) borrowedWorld).obligations
          (.obligation poolMarket (.key 1)) = some o' ∧
      o'.borrows[(0 : Fin maxBorrowCountInReserve)].borrowReserve =
        o.borrows[(0 : Fin maxBorrowCountInReserve)].borrowReserve ∧
      10 ^ 12 ≤ o'.borrows[(0 : Fin maxBorrowCountInReserve)].borrowedAmountSf.toNat := by
  obtain ⟨o, ho, hkey, -⟩ := borrowedRun_slot
  obtain ⟨o', ho', hsame, hwhole⟩ := unsigned_loan plainMxe ⟨0, 0⟩ borrowedRun foreclosure
    borrowedWorld poolMarket (.key 1) o 0 rfl ho (live_of_usd hkey) foreclosure_unsigned
  exact ⟨o, o', ho, foreclosure_ok, ho', hsame, hwhole⟩

/-- A loan grows by interest alone: whatever is run without the borrower's signature, a debt grows
by at most the factor of its reserve's index, rounded down. -/
theorem unsigned_debt (mxe : Mxe) (clock : Clock) (ixs later : List Instruction) (w : World)
    (M u : Pubkey) (o : Obligation) (i : Fin maxBorrowCountInReserve)
    (hrun : ixs.foldl (tx mxe) (genesis clock) = w)
    (ho : w.obligations (.obligation M u) = some o) (hi : borrowLayout.Live o.borrows[i])
    (hno : ∀ ix ∈ later, ix.signer ≠ some u) :
    ∃ o' r, (later.foldl (tx mxe) w).obligations (.obligation M u) = some o' ∧
      (later.foldl (tx mxe) w).reserves o.borrows[i].borrowReserve = some r ∧
      o'.borrows[i].borrowReserve = o.borrows[i].borrowReserve ∧
      o'.borrows[i].borrowedAmountSf.toNat ≤ o.borrows[i].borrowedAmountSf.toNat *
        r.liquidity.cumulativeBorrowRateSf.toNat / o.borrows[i].cumulativeBorrowRateSf.toNat := by
  have ha : w.Addressed := hrun ▸ addressed_run mxe clock ixs
  let Inv : World → Prop := fun v => v.Addressed ∧
    ∃ o', v.obligations (.obligation M u) = some o' ∧
      Slotwise ObligationLiquidity.Inflated o.borrows o'.borrows
  have hstart : Inv w := ⟨ha, o, ho, slotwise_refl ObligationLiquidity.inflated_refl _⟩
  have hlater : Inv (later.foldl (tx mxe) w) := by
    apply run_invariant later hstart
    rintro ix hix v v' ⟨hva, p, hp, hinflated⟩ h
    have howner := hva.obligations _ p hp
    rw [Pubkey.obligation.injEq] at howner
    obtain ⟨p', hp', hforeign⟩ := exec_foreign hva hp (howner.2 ▸ hno ix hix) h
    exact ⟨hva.exec h, p', hp', hinflated.trans (fun _ _ _ => ObligationLiquidity.Inflated.trans)
      hforeign.inflated⟩
  obtain ⟨-, p, hp, hinflated⟩ := hlater
  obtain ⟨hkey, hshare⟩ := hinflated i
  have hstarted : w.books.Ordered := hrun ▸ ordered_run mxe clock ixs
  obtain ⟨hone, -⟩ := hstarted.slots _ o ho i hi
  -- the slot has not overtaken its reserve
  have hordered : (later.foldl (tx mxe) w).books.Ordered := by
    rw [← hrun, ← List.foldl_append]
    exact ordered_run mxe clock (ixs ++ later)
  obtain ⟨hone', r, hr, hle⟩ := hordered.slots _ p hp i fun hfree => hi (hkey.symm.trans hfree)
  refine ⟨p, r, hp, hkey ▸ hr, hkey, ?_⟩
  exact le_grown_of_share_le (by omega) (by omega) ((share_anti (by omega) hle _).trans hshare)

/-- With a year's interest a debt of 1000 may grow to 1200, and the liquidation takes from that. -/
theorem unsigned_debt_foreclosed : ∃ o' : Obligation,
    EachStep (tx plainMxe) (fun w ix => (w.exec plainMxe ix).isOk = true) borrowedWorld
        foreclosure ∧
      (foreclosure.foldl (tx plainMxe) borrowedWorld).obligations
          (.obligation poolMarket (.key 1)) = some o' ∧
      o'.borrows[(0 : Fin maxBorrowCountInReserve)].borrowedAmountSf.toNat ≤ 1200 * 10 ^ 12 := by
  obtain ⟨o, ho, hkey, hdebt, hindex⟩ := borrowedRun_slot
  obtain ⟨o', r, ho', hr, -, hle⟩ := unsigned_debt plainMxe ⟨0, 0⟩ borrowedRun foreclosure
    borrowedWorld poolMarket (.key 1) o 0 rfl ho (live_of_usd hkey) foreclosure_unsigned
  have hgrown : ((foreclosure.foldl (tx plainMxe) borrowedWorld).reserves usdReserve).any
      (fun r => r.liquidity.cumulativeBorrowRateSf = 1200000000000) = true := by decide +kernel
  obtain ⟨q, hq, hrate⟩ := (Option.any_eq_true _ _).mp hgrown
  rw [hkey, hq] at hr
  have hsame : q = r := Option.some.inj hr
  rw [hdebt, hindex, ← hsame, of_decide_eq_true hrate] at hle
  exact ⟨o', foreclosure_ok, ho', hle.trans (by decide +kernel)⟩

end World

end VeilVault
