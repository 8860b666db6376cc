/-
# VeilVault.Ledger.Simulation — the instructions on the maps an obligation stores.

An instruction does more to a slot table than its payment: it accrues debts on the way, writes the
cached values the health checks read, and opens and clears slots.  On the maps the tables stand for,
all of that is interest and the payment (`Pays`): `tidy` is carried from call to call, each call
acts as its operation (`Tidy.refines`), and a cached value is no part of the map.
-/
import VeilVault.Ledger.Standing
import VeilVault.Obligation.Refinement

namespace VeilVault

open Kit

namespace Position

/-- Interest on one debt. -/
def Op.Accrues : Op → Prop
  | .grow .. | .idle => True
  | _ => False

/-- One operation after another, if each has an effect. -/
noncomputable def steps (p : Position) (ops : List Op) : Option Position := ops.foldlM step p

theorem steps_concat {p p' : Position} {ops : List Op} (h : p.steps ops = some p') (op : Op) :
    p.steps (ops ++ [op]) = p'.step op := by
  rw [steps, List.foldlM_append, show ops.foldlM step p = some p' from h]
  simp

end Position

namespace Obligation

variable {o o' o'' : Obligation} {key : Pubkey} {payments : List Position.Op}

/-! ## Calls -/

/-- A successful call on tidy tables acts as its operation. -/
theorem Tidy.step_call (h : o.Tidy) (c : TokenCall) (hcall : (o.call c.1).commit = .ok o') :
    o'.Tidy ∧ o.position.step (o.op c.1) = some o'.position := by
  have hrefines := h.refines c
  have hafter : o.after c.1 = o' := after_of_commit hcall
  refine ⟨hafter ▸ h.after c, ?_⟩
  cases hstep : o.position.step (o.op c.1) with
  | none =>
      obtain ⟨e, he⟩ := hrefines.fails (Position.step_eq_none.mp hstep)
      rw [he] at hcall
      cases hcall
  | some p => rw [← (hrefines.acts p hstep).2, hafter]

/-- The tables are tidy, and their maps are the old ones after interest and the payments. -/
structure Pays (o : Obligation) (payments : List Position.Op) (o' : Obligation) : Prop where
  tidy : o'.Tidy
  acts : ∃ accruals : List Position.Op, (∀ op ∈ accruals, op.Accrues) ∧
    o.position.steps (accruals ++ payments) = some o'.position

theorem Tidy.pays_nil (h : o.Tidy) : o.Pays [] o := ⟨h, [], nofun, rfl⟩

/-- What is not in the maps may change. -/
theorem Pays.same (h : o.Pays payments o') (htidy : o''.Tidy)
    (hsame : o''.position = o'.position) : o.Pays payments o'' := by
  refine ⟨htidy, ?_⟩
  rw [hsame]
  exact h.acts

theorem Pays.call (h : o.Pays payments o') (c : TokenCall)
    (hcall : (o'.call c.1).commit = .ok o'') : o.Pays (payments ++ [o'.op c.1]) o'' := by
  obtain ⟨htidy, accruals, haccrues, hsteps⟩ := h
  obtain ⟨htidy', hstep⟩ := htidy.step_call c hcall
  refine ⟨htidy', accruals, haccrues, ?_⟩
  rw [← List.append_assoc, Position.steps_concat hsteps, hstep]

/-- An accrual before the payments is interest. -/
theorem Pays.accrue {i : Fin maxBorrowCountInReserve} {c : U128} (h : o.Pays [] o')
    (hacc : (o'.accrueInterest i c).commit = .ok o'') : o.Pays [] o'' := by
  obtain ⟨htidy, accruals, haccrues, hsteps⟩ := h
  obtain ⟨htidy', hstep⟩ := htidy.step_call ⟨.accrueInterest i c, trivial⟩ hacc
  have hop : (o'.op (.accrueInterest i c)).Accrues := by
    rw [op_accrueInterest]
    split <;> trivial
  refine ⟨htidy', accruals ++ [o'.op (.accrueInterest i c)], ?_, ?_⟩
  · intro op hmem
    rcases List.mem_append.mp hmem with hmem | hmem
    · exact haccrues op hmem
    · rw [List.mem_singleton.mp hmem]
      exact hop
  · rw [List.append_nil] at hsteps ⊢
    rw [Position.steps_concat hsteps, hstep]

theorem Pays.accrueExisting {c : U128} (h : o.Pays [] o')
    (hacc : o'.accrueExisting key c = .ok o'') : o.Pays [] o'' := by
  unfold Obligation.accrueExisting at hacc
  split at hacc
  case h_1 => exact h.accrue hacc
  case h_2 =>
    cases hacc
    exact h

/-! ## Cached values -/

/-- A live deposit slot under its own key, with its own amount. -/
theorem Pays.setDeposit {i : Fin maxDepositsCountInReserve} {mv : U128}
    (h : o.Pays payments o') (hi : depositLayout.Live o'.deposits[i]) :
    o.Pays payments (o'.setDeposit i { o'.deposits[i] with marketValueSf := mv }) := by
  have htidy := h.tidy
  have hlive : depositLayout.Live { o'.deposits[i] with marketValueSf := mv } := hi
  apply h.same
  · exact {
      distinctDeposits := htidy.distinctDeposits.set_same rfl
      distinctBorrows := htidy.distinctBorrows
      depositsCount_eq := htidy.depositsCount_eq.trans (Layout.liveCount_set_live hi hlive).symm
      borrowsCount_eq := htidy.borrowsCount_eq
      slots := ⟨forall_set htidy.slots.1 (depositSlotOk_live hi (htidy.deposit_pos i hi)),
        htidy.slots.2⟩ }
  · have hmap := Layout.toMap_set_same (L := depositLayout) o'.deposits i
      (s := { o'.deposits[i] with marketValueSf := mv }) rfl rfl
    show Position.mk (depositLayout.abs _) _ = Position.mk (depositLayout.abs _) _
    rw [Position.mk.injEq]
    exact ⟨CapMap.ext hmap, rfl⟩

/-- A live borrow slot under its own key, with its own debt. -/
theorem Pays.setBorrow {i : Fin maxBorrowCountInReserve} {mv : U128}
    (h : o.Pays payments o') (hi : borrowLayout.Live o'.borrows[i]) :
    o.Pays payments (o'.setBorrow i { o'.borrows[i] with marketValueSf := mv }) := by
  have htidy := h.tidy
  have hlive : borrowLayout.Live { o'.borrows[i] with marketValueSf := mv } := hi
  apply h.same
  · exact {
      distinctDeposits := htidy.distinctDeposits
      distinctBorrows := htidy.distinctBorrows.set_same rfl
      depositsCount_eq := htidy.depositsCount_eq
      borrowsCount_eq := htidy.borrowsCount_eq.trans (Layout.liveCount_set_live hi hlive).symm
      slots := ⟨htidy.slots.1,
        forall_set htidy.slots.2 (borrowSlotOk_live hi ((htidy.slots.2 i).1 hi))⟩ }
  · have hmap := Layout.toMap_set_same (L := borrowLayout) o'.borrows i
      (s := { o'.borrows[i] with marketValueSf := mv }) rfl rfl
    show Position.mk _ (borrowLayout.abs _) = Position.mk _ (borrowLayout.abs _)
    rw [Position.mk.injEq]
    exact ⟨rfl, CapMap.ext hmap⟩

end Obligation

/-! ## Ledger parts -/

namespace Ledger

open Obligation

variable {market : LendingMarket} {clock : Clock} {key repayKey withdrawKey : Pubkey}
  {reserves : Pubkey → Option Reserve} {accounts : List Pubkey} {r r' : Reserve}
  {o o' : Obligation} {a : U64}

theorem pays_deposit (h : o.Tidy) (hkey : key ≠ default)
    (hdep : (o.deposit key a).commit = .ok o') : o.Pays [.deposit key a.toNat] o' :=
  h.pays_nil.call ⟨.deposit ⟨key, hkey⟩ a, trivial⟩ hdep

theorem pays_withdrawCollateral (h : o.Tidy) (hkey : key ≠ default)
    (hwd : withdrawCollateral market clock key o a = .ok o') :
    o.Pays [.withdraw key a.toNat] o' := by
  obtain ⟨i, mv, hi, -, hcall, -⟩ := withdrawCollateral_ok hwd
  have hlive := deposit_live hkey (findDeposit_eq_ok.mp hi).1
  exact (h.pays_nil.setDeposit hlive).call ⟨.withdraw ⟨key, hkey⟩ a, trivial⟩ hcall

theorem toU128_lt (a : U64) : a.toU128.toNat < 2 ^ 64 := by
  rw [toNat_toU128]
  exact a.isLt

theorem pays_borrow (h : o.Tidy) (hkey : key ≠ default) (hbor : Borrows clock key r o a r' o') :
    o.Pays [.borrow key a.toNat] o' := by
  obtain ⟨r₁, o₁, -, -, hacc, hcall⟩ := hbor.steps
  have hpays := (h.pays_nil.accrueExisting hacc).call
    ⟨.borrow ⟨key, hkey⟩ a.toU128 r'.liquidity.cumulativeBorrowRateSf, toU128_lt a⟩ hcall
  rwa [op, toNat_toU128] at hpays

theorem pays_repay (h : o.Tidy) (hkey : key ≠ default)
    (hrep : repay clock key r o a = .ok (r', o')) : o.Pays [.repay key a.toNat] o' := by
  obtain ⟨r₁, i, o₁, -, -, -, hacc, hcall⟩ := repay_ok hrep
  have hpays := (h.pays_nil.accrue hacc).call ⟨.repay ⟨key, hkey⟩ a.toU128, toU128_lt a⟩ hcall
  rwa [op, toNat_toU128] at hpays

/-- A liquidation is a repayment of no more than was offered, and a withdrawal. -/
theorem pays_seize {gate : Obligation → Result Unit} {s : Seizure} (h : o.Tidy)
    (hrepay : repayKey ≠ default) (hwithdraw : withdrawKey ≠ default)
    (hseize : seize gate clock repayKey withdrawKey reserves o a = .ok s) :
    s.actualRepay.toNat ≤ a.toNat ∧
      o.Pays [.repay repayKey s.actualRepay.toNat, .withdraw withdrawKey s.ctokensToSeize.toNat]
        s.obligation := by
  obtain ⟨r, r₁, q, q₁, i, j, o₁, hs⟩ := seize_parts hseize
  obtain ⟨o₂, hrep, hwd⟩ := hs.obligation
  have hrepaid := (h.pays_nil.accrue hs.accrued).call
    ⟨.repay ⟨repayKey, hrepay⟩ s.actualRepay.toU128, toU128_lt _⟩ hrep
  rw [op, toNat_toU128] at hrepaid
  refine ⟨?_, hrepaid.call ⟨.withdraw ⟨withdrawKey, hwithdraw⟩ s.ctokensToSeize, trivial⟩ hwd⟩
  rw [hs.repaid]
  exact min_le_left _ _

/-- A refresh is nothing but interest. -/
theorem pays_refreshObligation (h : o.Tidy)
    (hrefresh : refreshObligation reserves accounts clock o = .ok o') : o.Pays [] o' := by
  simp only [refreshObligation, bind_eq_ok, pure_eq_ok] at hrefresh
  obtain ⟨o₁, ho₁, o₂, ho₂, rfl⟩ := hrefresh
  have hborrows : o.Pays [] o₁ := by
    refine foldlM_range_invariant (P := fun _ t => o.Pays [] t) h.pays_nil ?_ ho₁
    rintro m s s' - hs hstep
    unfold priceBorrow at hstep
    split at hstep
    case isFalse => cases hstep
    case isTrue =>
      rcases priceBorrowSlot_ok hstep with ⟨rfl, -⟩ | ⟨q, s₁, mv, hlive, -, -, hacc, -, rfl⟩
      · exact hs
      · -- the accrual leaves the slot its reserve
        have hkept : Slotwise ObligationLiquidity.Kept s.borrows s₁.borrows :=
          accrueInterest_slotwise ObligationLiquidity.kept_refl (fun _ _ hk _ _ => hk) hacc
        have hlive₁ : borrowLayout.Live s₁.borrows[m] := fun hfree =>
          hlive ((hkept _ hlive).symm.trans hfree)
        exact (hs.accrue hacc).setBorrow hlive₁
  have hdeposits : o.Pays [] o₂ := by
    refine foldlM_range_invariant (P := fun _ t => o.Pays [] t) hborrows ?_ ho₂
    rintro m s s' - hs hstep
    unfold priceDeposit at hstep
    split at hstep
    case isFalse => cases hstep
    case isTrue =>
      rcases priceDepositSlot_ok hstep with ⟨rfl, -⟩ | ⟨q, t, u, mv, hlive, -, -, -, -, -, rfl⟩
      · exact hs
      · exact hs.setDeposit hlive
  have htidy := hdeposits.tidy
  exact hdeposits.same ⟨htidy.distinctDeposits, htidy.distinctBorrows, htidy.depositsCount_eq,
    htidy.borrowsCount_eq, htidy.slots⟩ rfl

end Ledger

end VeilVault
