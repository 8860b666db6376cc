/-
# VeilVault.Ledger.Refreshing — a refresh as two sweeps.

Each iteration of `refresh_obligation` reads and writes one slot: the lookup among the passed
accounts, the accrual and the valuation depend on that slot and its reserve alone.  As a function of
the slot (`pricedBorrow`, `pricedDeposit`) it repeats without effect, because an accrual to an index
already reached does nothing and the value is taken after the accrual.  The sweep's rules then give
the same for the whole instruction.
-/
import VeilVault.Kit.Sweep
import VeilVault.Ledger.RefreshGate

namespace VeilVault

open Kit Kit.Outcome

/-! ## One slot -/

namespace ObligationLiquidity

variable {b b' : ObligationLiquidity} {c : U128}

/-- `Obligation::accrue_interest` on the slot it is given. -/
def accruedTo (b : ObligationLiquidity) (c : U128) : Result ObligationLiquidity := do
  if b.isActive = false then return b
  require (c ≥ b.cumulativeBorrowRateSf) .borrowRateDecreased
  if c = b.cumulativeBorrowRateSf then return b
  let borrowedAmountSf ← okOr (do
    let m ← checkedMul b.borrowedAmountSf c
    checkedDiv m b.cumulativeBorrowRateSf) .mathOverflow
  return { b with borrowedAmountSf, cumulativeBorrowRateSf := c }

/-- A taken slot keeps its key and ends at the index. -/
theorem accruedTo_ok (hact : ¬ b.isActive = false) (h : b.accruedTo c = .ok b') :
    b'.borrowReserve = b.borrowReserve ∧ b'.cumulativeBorrowRateSf = c := by
  simp only [accruedTo, if_neg hact, bind_eq_ok, require_eq_ok, exists_const] at h
  obtain ⟨-, h⟩ := h
  split at h
  case isTrue hsame =>
    rw [pure_eq_ok] at h
    rw [h]
    exact ⟨rfl, hsame.symm⟩
  case isFalse =>
    obtain ⟨d, -, h⟩ := bind_eq_ok.mp h
    rw [pure_eq_ok] at h
    rw [h]
    exact ⟨rfl, rfl⟩

/-- At the index there is nothing to accrue. -/
theorem accruedTo_same (h : b.cumulativeBorrowRateSf = c) : b.accruedTo c = .ok b := by
  unfold accruedTo
  split
  case isTrue => rfl
  case isFalse =>
    rw [require_pos (BitVec.le_def.mpr (h ▸ Nat.le_refl _)), ok_bind, if_pos h.symm]
    rfl

end ObligationLiquidity

/-- The method is the slot's accrual, written back. -/
theorem Obligation.commit_accrueInterest (o : Obligation) (i : Fin maxBorrowCountInReserve)
    (c : U128) : (o.accrueInterest i c).commit =
      o.borrows[i].accruedTo c >>= fun b => pure (o.setBorrow i b) := by
  rw [accrueInterest, dif_pos i.isLt]
  simp only [Fin.eta]
  unfold ObligationLiquidity.accruedTo
  by_cases hact : o.borrows[i].isActive = false
  · rw [if_pos hact, if_pos hact, pure_bind, setBorrow_self]
    rfl
  · rw [if_neg hact, if_neg hact, commit_attempt, bind_assoc]
    congr 1
    funext _
    by_cases hsame : c = o.borrows[i].cumulativeBorrowRateSf
    · rw [if_pos hsame, if_pos hsame, pure_bind, setBorrow_self]
      rfl
    · rw [if_neg hsame, if_neg hsame, commit_attempt, bind_assoc]
      rfl

namespace Ledger

section Slot

variable (reserves : Pubkey → Option Reserve) (accounts : List Pubkey)

/-- The body of the borrow loop as a function of its slot. -/
def pricedBorrow (b : ObligationLiquidity) : Result ObligationLiquidity := do
  if b.isActive = false then return b
  require (b.borrowReserve ∈ accounts) .borrowNotFound
  let fields ← readReserveFields (reserves b.borrowReserve)
  if fields.priceSf = 0 then return b
  let b ← b.accruedTo fields.cumulativeRateSf
  let marketValueSf ← okOr (checkedMul (b.borrowedAmountSf / rateScale) fields.priceSf)
    .mathOverflow
  return { b with marketValueSf }

/-- The body of the deposit loop as a function of its slot. -/
def pricedDeposit (c : ObligationCollateral) : Result ObligationCollateral := do
  if c.isActive = false then return c
  require (c.depositReserve ∈ accounts) .depositNotFound
  let fields ← readReserveFields (reserves c.depositReserve)
  if fields.priceSf = 0 then return c
  let underlying ←
    underlyingOf c.depositedAmount.toU128 fields.totalLiquidity fields.ctokenSupply
  let marketValueSf ← okOr (do
    let m ← checkedMul underlying fields.priceSf
    let m ← checkedMul m fields.liqThresholdPct.toU128
    checkedDiv m percentScaler) .mathOverflow
  return { c with marketValueSf }

theorem priceBorrowSlot_eq (o : Obligation) (i : Fin maxBorrowCountInReserve) :
    priceBorrowSlot reserves accounts o i =
      pricedBorrow reserves accounts o.borrows[i] >>= fun b => pure (o.setBorrow i b) := by
  unfold priceBorrowSlot pricedBorrow
  by_cases hact : o.borrows[i].isActive = false
  · rw [if_pos hact, if_pos hact, pure_bind, Obligation.setBorrow_self]
  · simp only [if_neg hact, bind_assoc]
    congr 1
    funext _
    congr 1
    funext fields
    by_cases hprice : fields.priceSf = 0
    · rw [if_pos hprice, if_pos hprice, pure_bind, Obligation.setBorrow_self]
    · -- the accrual writes the slot, and the value is computed from what it wrote
      simp only [if_neg hprice, Obligation.commit_accrueInterest, bind_assoc, pure_bind,
        Obligation.setBorrow_borrows, getElem_set_fin_self, Obligation.setBorrow_setBorrow]

theorem priceDepositSlot_eq (o : Obligation) (i : Fin maxDepositsCountInReserve) :
    priceDepositSlot reserves accounts o i =
      pricedDeposit reserves accounts o.deposits[i] >>= fun c => pure (o.setDeposit i c) := by
  unfold priceDepositSlot pricedDeposit
  by_cases hact : o.deposits[i].isActive = false
  · rw [if_pos hact, if_pos hact, pure_bind, Obligation.setDeposit_self]
  · simp only [if_neg hact, bind_assoc]
    congr 1
    funext _
    congr 1
    funext fields
    by_cases hprice : fields.priceSf = 0
    · rw [if_pos hprice, if_pos hprice, pure_bind, Obligation.setDeposit_self]
    · simp only [if_neg hprice, bind_assoc, pure_bind]

variable {reserves accounts} {b b' : ObligationLiquidity} {c c' : ObligationCollateral}

theorem pricedBorrow_twice (h : pricedBorrow reserves accounts b = .ok b') :
    pricedBorrow reserves accounts b' = .ok b' := by
  have hrun := h
  unfold pricedBorrow at h
  by_cases hact : b.isActive = false
  · rw [if_pos hact, pure_eq_ok] at h
    rw [← h] at hrun
    exact hrun
  · simp only [if_neg hact, bind_eq_ok, require_eq_ok, exists_const] at h
    obtain ⟨hmem, fields, hfields, h⟩ := h
    by_cases hprice : fields.priceSf = 0
    · rw [if_pos hprice, pure_eq_ok] at h
      rw [← h] at hrun
      exact hrun
    · simp only [if_neg hprice, bind_eq_ok, pure_eq_ok] at h
      obtain ⟨b₁, hb₁, mv, hmv, rfl⟩ := h
      obtain ⟨hkey, hrate⟩ := ObligationLiquidity.accruedTo_ok hact hb₁
      -- key, index and amount are those the value was computed from
      have hact' : ¬ ({ b₁ with marketValueSf := mv } : ObligationLiquidity).isActive = false := by
        show ¬ (b₁.borrowReserve != default) = false
        rw [hkey]
        exact hact
      have hmem' : b₁.borrowReserve ∈ accounts := hkey ▸ hmem
      have hfields' : readReserveFields (reserves b₁.borrowReserve) = .ok fields := hkey ▸ hfields
      have hstill : ({ b₁ with marketValueSf := mv } : ObligationLiquidity).accruedTo
          fields.cumulativeRateSf = .ok { b₁ with marketValueSf := mv } :=
        ObligationLiquidity.accruedTo_same hrate
      simp only [pricedBorrow, if_neg hact', require_pos hmem', hfields', ok_bind, if_neg hprice,
        hstill, hmv]
      rfl

theorem pricedDeposit_twice (h : pricedDeposit reserves accounts c = .ok c') :
    pricedDeposit reserves accounts c' = .ok c' := by
  have hrun := h
  unfold pricedDeposit at h
  by_cases hact : c.isActive = false
  · rw [if_pos hact, pure_eq_ok] at h
    rw [← h] at hrun
    exact hrun
  · simp only [if_neg hact, bind_eq_ok, require_eq_ok, exists_const] at h
    obtain ⟨hmem, fields, hfields, h⟩ := h
    by_cases hprice : fields.priceSf = 0
    · rw [if_pos hprice, pure_eq_ok] at h
      rw [← h] at hrun
      exact hrun
    · simp only [if_neg hprice, bind_eq_ok, pure_eq_ok] at h
      obtain ⟨u, hu, mv, hmv, rfl⟩ := h
      have hact' : ¬ ({ c with marketValueSf := mv } : ObligationCollateral).isActive = false :=
        hact
      simp only [pricedDeposit, if_neg hact', require_pos hmem, hfields, ok_bind, if_neg hprice,
        hu, hmv]
      rfl

/-! ### What a slot reads -/

/-- Two ways of passing the reserves that nobody who looks for `k` can tell apart. -/
def Agree (reserves₁ : Pubkey → Option Reserve) (accounts₁ : List Pubkey)
    (reserves₂ : Pubkey → Option Reserve) (accounts₂ : List Pubkey) (k : Pubkey) : Prop :=
  (k ∈ accounts₁ ↔ k ∈ accounts₂) ∧ (k ∈ accounts₁ → reserves₁ k = reserves₂ k)

variable {reserves₁ reserves₂ : Pubkey → Option Reserve} {accounts₁ accounts₂ : List Pubkey}

/-- Looking a key up and reading its reserve is the same for both, errors included. -/
theorem Agree.lookup {k : Pubkey} {e : LendingError} {α : Type} {rest : ReserveFields → Result α}
    (h : Agree reserves₁ accounts₁ reserves₂ accounts₂ k) :
    (require (k ∈ accounts₁) e >>= fun _ => readReserveFields (reserves₁ k) >>= rest) =
      (require (k ∈ accounts₂) e >>= fun _ => readReserveFields (reserves₂ k) >>= rest) := by
  by_cases hmem : k ∈ accounts₁
  · rw [require_pos hmem, require_pos (h.1.mp hmem), h.2 hmem]
  · rw [require_neg hmem, require_neg (h.1.not.mp hmem)]
    rfl

theorem pricedBorrow_congr
    (h : b.isActive = true → Agree reserves₁ accounts₁ reserves₂ accounts₂ b.borrowReserve) :
    pricedBorrow reserves₁ accounts₁ b = pricedBorrow reserves₂ accounts₂ b := by
  unfold pricedBorrow
  by_cases hact : b.isActive = false
  · rw [if_pos hact, if_pos hact]
  · rw [if_neg hact, if_neg hact]
    exact (h (Bool.eq_true_of_not_eq_false hact)).lookup

theorem pricedDeposit_congr
    (h : c.isActive = true → Agree reserves₁ accounts₁ reserves₂ accounts₂ c.depositReserve) :
    pricedDeposit reserves₁ accounts₁ c = pricedDeposit reserves₂ accounts₂ c := by
  unfold pricedDeposit
  by_cases hact : c.isActive = false
  · rw [if_pos hact, if_pos hact]
  · rw [if_neg hact, if_neg hact]
    exact (h (Bool.eq_true_of_not_eq_false hact)).lookup

end Slot

/-! ## The two sweeps -/

def borrowSlots : Slots Obligation ObligationLiquidity maxBorrowCountInReserve where
  get := fun o i => o.borrows[i]
  set := Obligation.setBorrow
  get_set := fun o i b => getElem_set_fin_self o.borrows i b
  get_set_ne := fun o _ _ b h => getElem_set_fin_ne o.borrows b h
  set_get := Obligation.setBorrow_self

def depositSlots : Slots Obligation ObligationCollateral maxDepositsCountInReserve where
  get := fun o i => o.deposits[i]
  set := Obligation.setDeposit
  get_set := fun o i c => getElem_set_fin_self o.deposits i c
  get_set_ne := fun o _ _ c h => getElem_set_fin_ne o.deposits c h
  set_get := Obligation.setDeposit_self

section Instruction

variable {reserves : Pubkey → Option Reserve} {accounts : List Pubkey} {clock : Clock}
  {o o' : Obligation}

theorem refreshObligation_sweeps (reserves : Pubkey → Option Reserve) (accounts : List Pubkey)
    (clock : Clock) (o : Obligation) : refreshObligation reserves accounts clock o = (do
      let o ← borrowSlots.sweep (pricedBorrow reserves accounts) .abort o.borrowsCount.toNat o
      let o ← depositSlots.sweep (pricedDeposit reserves accounts) .abort o.depositsCount.toNat o
      return { o with lastUpdate := o.lastUpdate.update clock.slot clock.unixTimestamp }) := by
  have hborrow : priceBorrow reserves accounts =
      borrowSlots.visit (pricedBorrow reserves accounts) .abort := by
    funext o i
    unfold priceBorrow Slots.visit
    split
    case isTrue => exact priceBorrowSlot_eq reserves accounts o _
    case isFalse => rfl
  have hdeposit : priceDeposit reserves accounts =
      depositSlots.visit (pricedDeposit reserves accounts) .abort := by
    funext o i
    unfold priceDeposit Slots.visit
    split
    case isTrue => exact priceDepositSlot_eq reserves accounts o _
    case isFalse => rfl
  unfold refreshObligation
  rw [hborrow, hdeposit]
  rfl

/-- A second refresh finds every slot as the first one left it. -/
theorem refreshObligation_again (h : refreshObligation reserves accounts clock o = .ok o') :
    refreshObligation reserves accounts clock o' = .ok o' := by
  rw [refreshObligation_sweeps] at h ⊢
  simp only [bind_eq_ok, pure_eq_ok] at h
  obtain ⟨o₁, h₁, o₂, h₂, rfl⟩ := h
  -- the deposit sweep leaves the borrow table, and both leave the counts
  have hborrows : o₂.borrows = o₁.borrows :=
    Slots.sweep_frame Obligation.borrows (fun _ _ _ => rfl) h₂
  have hcount : o₂.borrowsCount = o.borrowsCount :=
    (Slots.sweep_frame Obligation.borrowsCount (fun _ _ _ => rfl) h₂).trans
      (Slots.sweep_frame Obligation.borrowsCount (fun _ _ _ => rfl) h₁)
  have hcount' : o₂.depositsCount = o₁.depositsCount :=
    Slots.sweep_frame Obligation.depositsCount (fun _ _ _ => rfl) h₂
  generalize hlast : ({ o₂ with
    lastUpdate := o₂.lastUpdate.update clock.slot clock.unixTimestamp } : Obligation) = last
  have hfirst : borrowSlots.sweep (pricedBorrow reserves accounts) .abort
      last.borrowsCount.toNat last = .ok last := by
    subst hlast
    show borrowSlots.sweep _ _ o₂.borrowsCount.toNat _ = _
    rw [hcount]
    refine Slots.sweep_again (fun _ _ => pricedBorrow_twice) h₁ fun i => ?_
    show o₂.borrows[i] = o₁.borrows[i]
    rw [hborrows]
  have hsecond : depositSlots.sweep (pricedDeposit reserves accounts) .abort
      last.depositsCount.toNat last = .ok last := by
    subst hlast
    show depositSlots.sweep _ _ o₂.depositsCount.toNat _ = _
    rw [hcount']
    exact Slots.sweep_again (fun _ _ => pricedDeposit_twice) h₂ fun i => rfl
  rw [hfirst, ok_bind, hsecond, ok_bind, pure_eq_ok, ← hlast]
  rfl

/-- The key of an active slot that the counts cover. -/
def Visits (o : Obligation) (k : Pubkey) : Prop :=
  (∃ i : Fin maxBorrowCountInReserve, i.val < o.borrowsCount.toNat ∧
    o.borrows[i].isActive = true ∧ o.borrows[i].borrowReserve = k) ∨
  (∃ i : Fin maxDepositsCountInReserve, i.val < o.depositsCount.toNat ∧
    o.deposits[i].isActive = true ∧ o.deposits[i].depositReserve = k)

/-- Passed accounts that agree on the visited keys lead to the same result. -/
theorem refreshObligation_congr {reserves₁ reserves₂ : Pubkey → Option Reserve}
    {accounts₁ accounts₂ : List Pubkey}
    (h : ∀ k, Visits o k → Agree reserves₁ accounts₁ reserves₂ accounts₂ k) :
    refreshObligation reserves₁ accounts₁ clock o =
      refreshObligation reserves₂ accounts₂ clock o := by
  rw [refreshObligation_sweeps, refreshObligation_sweeps,
    Slots.sweep_congr (t := borrowSlots) (g := pricedBorrow reserves₂ accounts₂) fun i hi =>
      pricedBorrow_congr fun hact => h _ (.inl ⟨i, hi, hact, rfl⟩)]
  cases h₁ : borrowSlots.sweep (pricedBorrow reserves₂ accounts₂) .abort
      o.borrowsCount.toNat o with
  | error e => rfl
  | ok o₁ =>
      -- the borrow sweep leaves the deposit slots that the second one visits
      have hdeposits : o₁.deposits = o.deposits :=
        Slots.sweep_frame Obligation.deposits (fun _ _ _ => rfl) h₁
      have hcount : o₁.depositsCount = o.depositsCount :=
        Slots.sweep_frame Obligation.depositsCount (fun _ _ _ => rfl) h₁
      rw [ok_bind, ok_bind, Slots.sweep_congr (t := depositSlots)
        (g := pricedDeposit reserves₂ accounts₂) fun i hi => ?_]
      refine pricedDeposit_congr fun hact => h _ (.inr ⟨i, hcount ▸ hi, ?_⟩)
      have hslot : depositSlots.get o₁ i = o.deposits[i] := by
        show o₁.deposits[i] = o.deposits[i]
        rw [hdeposits]
      rw [hslot] at hact ⊢
      exact ⟨hact, rfl⟩

/-- The reserve accounts a refresh can find, as pairs of key and state. -/
def passed (reserves : Pubkey → Option Reserve) (accounts : List Pubkey) (o : Obligation) :
    Set (Pubkey × Option Reserve) :=
  {x | x.1 ∈ accounts ∧ Visits o x.1 ∧ x.2 = reserves x.1}

theorem agree_of_passed {reserves₁ reserves₂ : Pubkey → Option Reserve}
    {accounts₁ accounts₂ : List Pubkey} {k : Pubkey}
    (h : passed reserves₁ accounts₁ o = passed reserves₂ accounts₂ o) (hk : Visits o k) :
    Agree reserves₁ accounts₁ reserves₂ accounts₂ k := by
  have hto (hmem : k ∈ accounts₁) : k ∈ accounts₂ ∧ reserves₁ k = reserves₂ k := by
    have hpair : (k, reserves₁ k) ∈ passed reserves₂ accounts₂ o := h ▸ ⟨hmem, hk, rfl⟩
    exact ⟨hpair.1, hpair.2.2⟩
  have hback (hmem : k ∈ accounts₂) : k ∈ accounts₁ := by
    have hpair : (k, reserves₂ k) ∈ passed reserves₁ accounts₁ o := h ▸ ⟨hmem, hk, rfl⟩
    exact hpair.1
  exact ⟨⟨fun hmem => (hto hmem).1, hback⟩, fun hmem => (hto hmem).2⟩

/-- A refresh repeats without effect, and does not depend on order, duplicates or extra accounts. -/
theorem refreshObligation_stable (clock : Clock) (o : Obligation) :
    (∀ (reserves : Pubkey → Option Reserve) (accounts : List Pubkey) (o' : Obligation),
      refreshObligation reserves accounts clock o = .ok o' →
        refreshObligation reserves accounts clock o' = .ok o') ∧
    (∀ (reserves₁ reserves₂ : Pubkey → Option Reserve) (accounts₁ accounts₂ : List Pubkey),
      passed reserves₁ accounts₁ o = passed reserves₂ accounts₂ o →
        refreshObligation reserves₁ accounts₁ clock o =
          refreshObligation reserves₂ accounts₂ clock o) :=
  ⟨fun _ _ _ h => refreshObligation_again h,
    fun _ _ _ _ h => refreshObligation_congr fun _ hk => agree_of_passed h hk⟩

theorem refreshObligation_stable_unpriced :
    refreshObligation twoReserves [.key 3, .key 4] ⟨9, 900⟩ pricedObligation =
        .ok pricedObligation ∧
      refreshObligation twoReserves [.key 9, .key 3, .key 3] ⟨9, 900⟩ unpricedObligation =
        .ok pricedObligation := by
  obtain ⟨hagain, hsame⟩ := refreshObligation_stable ⟨9, 900⟩ unpricedObligation
  have hvisits (k : Pubkey) (hk : Visits unpricedObligation k) : k = .key 3 := by
    have hborrows : ∀ i : Fin maxBorrowCountInReserve,
        ¬ unpricedObligation.borrows[i].isActive = true := by decide
    have hdeposits : ∀ i : Fin maxDepositsCountInReserve,
        unpricedObligation.deposits[i].isActive = true →
          unpricedObligation.deposits[i].depositReserve = .key 3 := by decide
    rcases hk with ⟨i, -, hact, -⟩ | ⟨i, -, hact, rfl⟩
    · exact absurd hact (hborrows i)
    · exact hdeposits i hact
  refine ⟨hagain _ _ _ refreshObligation_unpriced, ?_⟩
  rw [hsame twoReserves twoReserves [.key 9, .key 3, .key 3] [.key 3, .key 4]]
  · exact refreshObligation_unpriced
  · ext ⟨k, reserve⟩
    constructor
    · rintro ⟨-, hk, hstate⟩
      obtain rfl := hvisits k hk
      exact ⟨List.mem_cons_self, hk, hstate⟩
    · rintro ⟨-, hk, hstate⟩
      obtain rfl := hvisits k hk
      exact ⟨List.mem_cons_of_mem _ List.mem_cons_self, hk, hstate⟩

end Instruction

end Ledger

end VeilVault
