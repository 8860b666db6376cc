/-
# VeilVault.Private.Updates — when private deposits and borrows add up.

The documents call the stored ciphertexts the cumulative position, and each deposit or borrow adds
to them.  An addition is a read, a computation and a write, spread over two transactions, and
nothing serialises them: of two additions in flight at once, the one delivered last overwrites the
other, or decrypts ciphertexts with a nonce that is no longer theirs.  And the circuits add in words
of 64 bits, so even one after the other additions add up only as far as their sums fit.

`credit` is the abstract machine, on which an addition is one step.  When each addition is queued
with nothing in flight, the machine of the code simulates it (`tracks_tx`), and after the last
callback the decrypted position is what the additions come to (`position_of_serial`).
-/
import VeilVault.Kit.Run
import VeilVault.Private.Machine

namespace VeilVault

open Kit

/-! ## The runs -/

/-- What can happen to a private obligation under deposits and borrows. -/
inductive PrivateOp
  | depositCollateral (reserveKey : Pubkey) (amount : SharedAmount)
  | borrow (reserveKey : Pubkey) (amount : SharedAmount)
  | execute (i : Nat) (fresh : U128)
  | deliver (i : Nat)

/-- The operations that queue a computation. -/
def PrivateOp.Queues : PrivateOp → Prop
  | .depositCollateral .. | .borrow .. => True
  | .execute .. | .deliver .. => False

namespace PrivateState

variable (mxe : Mxe)

def exec (s : PrivateState) : PrivateOp → Result PrivateState
  | .depositCollateral k a => s.privateDepositCollateral k a
  | .borrow k a => s.privateBorrow k a
  | .execute i fresh => .ok (s.execute mxe i fresh)
  | .deliver i => .ok (s.deliver i)

def tx (s : PrivateState) (op : PrivateOp) : PrivateState := attemptStep (exec mxe) s op

/-- Nothing is in flight. -/
def Quiet (s : PrivateState) : Prop := s.queued = [] ∧ s.outputs = []

/-- The position the account stores. -/
def position (s : PrivateState) : PrivatePosition :=
  mxe.decrypt s.account.nonce s.account.encState

end PrivateState

/-! ## The abstract machine -/

variable (mxe : Mxe)

/-- An addition takes effect at once. -/
def credit (p : PrivatePosition) : PrivateOp → PrivatePosition
  | .depositCollateral _ a => Circuits.addCollateralV2 (mxe.openShared a) p
  | .borrow _ a => Circuits.addBorrowV2 (mxe.openShared a) p
  | .execute .. | .deliver .. => p

/-- The encrypted collateral amount of one operation. -/
def PrivateOp.collateral : PrivateOp → U64
  | .depositCollateral _ a => mxe.openShared a
  | _ => 0

/-- The encrypted borrow amount of one operation. -/
def PrivateOp.debt : PrivateOp → U64
  | .borrow _ a => mxe.openShared a
  | _ => 0

/-- Everything encrypted on the collateral side. -/
def collateralAdded (ops : List PrivateOp) : ℕ :=
  (ops.map fun op => (op.collateral mxe).toNat).sum

/-- Everything encrypted on the borrow side. -/
def debtAdded (ops : List PrivateOp) : ℕ :=
  (ops.map fun op => (op.debt mxe).toNat).sum

/-- The position `q` is the position `p` and everything that was encrypted. -/
structure AddsUp (p : PrivatePosition) (ops : List PrivateOp) (q : PrivatePosition) : Prop where
  collateral : q.collateralTokens.toNat = p.collateralTokens.toNat + collateralAdded mxe ops
  debt : q.borrowTokens.toNat = p.borrowTokens.toNat + debtAdded mxe ops

/-- The addition of one operation stays in its word. -/
def AddsExactly (p : PrivatePosition) (op : PrivateOp) : Prop :=
  p.collateralTokens.toNat + (op.collateral mxe).toNat < 2 ^ 64 ∧
    p.borrowTokens.toNat + (op.debt mxe).toNat < 2 ^ 64

/-- So does every addition of a run. -/
def RunsExactly : PrivatePosition → List PrivateOp → Prop
  | _, [] => True
  | p, op :: ops => AddsExactly mxe p op ∧ RunsExactly (credit mxe p op) ops

section Sums

variable {mxe} {p : PrivatePosition} {op : PrivateOp}

/-- One operation adds its own amount, on its own side. -/
theorem AddsExactly.toNat_credit (h : AddsExactly mxe p op) :
    (credit mxe p op).collateralTokens.toNat =
        p.collateralTokens.toNat + (op.collateral mxe).toNat ∧
      (credit mxe p op).borrowTokens.toNat = p.borrowTokens.toNat + (op.debt mxe).toNat := by
  obtain ⟨hcollateral, hdebt⟩ := h
  cases op with
  | depositCollateral k a => exact ⟨BitVec.toNat_add_of_lt hcollateral, rfl⟩
  | borrow k a => exact ⟨rfl, BitVec.toNat_add_of_lt hdebt⟩
  | execute | deliver => exact ⟨rfl, rfl⟩

/-- The amounts are not negative, so the sums decide about every addition before them. -/
theorem runsExactly_iff (ops : List PrivateOp) : ∀ p : PrivatePosition,
    RunsExactly mxe p ops ↔ p.collateralTokens.toNat + collateralAdded mxe ops < 2 ^ 64 ∧
      p.borrowTokens.toNat + debtAdded mxe ops < 2 ^ 64 := by
  induction ops with
  | nil => exact fun p => iff_of_true trivial ⟨p.collateralTokens.isLt, p.borrowTokens.isLt⟩
  | cons op ops ih =>
      intro p
      simp only [RunsExactly, collateralAdded, debtAdded, List.map_cons, List.sum_cons]
      rw [ih, collateralAdded, debtAdded]
      constructor
      · rintro ⟨hfirst, hrest⟩
        obtain ⟨hcollateral, hdebt⟩ := hfirst.toNat_credit
        omega
      · intro hsums
        have hfirst : AddsExactly mxe p op := ⟨by omega, by omega⟩
        obtain ⟨hcollateral, hdebt⟩ := hfirst.toNat_credit
        exact ⟨hfirst, by omega, by omega⟩

/-- Exact additions add up. -/
theorem RunsExactly.position (ops : List PrivateOp) : ∀ p : PrivatePosition,
    RunsExactly mxe p ops → AddsUp mxe p ops (ops.foldl (credit mxe) p) := by
  induction ops with
  | nil => exact fun _ _ => ⟨rfl, rfl⟩
  | cons op ops ih =>
      rintro p ⟨hfirst, hrest⟩
      obtain ⟨hcollateral, hdebt⟩ := hfirst.toNat_credit
      obtain ⟨hcollaterals, hdebts⟩ := ih _ hrest
      constructor
      · rw [List.foldl_cons, hcollaterals, hcollateral, collateralAdded, collateralAdded,
          List.map_cons, List.sum_cons, Nat.add_assoc]
      · rw [List.foldl_cons, hdebts, hdebt, debtAdded, debtAdded, List.map_cons, List.sum_cons,
          Nat.add_assoc]

/-- A sum that is stored in a word fits it, so the additions add up exactly when the sums fit. -/
theorem addsUp_foldl_iff (ops : List PrivateOp) (p : PrivatePosition) :
    AddsUp mxe p ops (ops.foldl (credit mxe) p) ↔
      p.collateralTokens.toNat + collateralAdded mxe ops < 2 ^ 64 ∧
        p.borrowTokens.toNat + debtAdded mxe ops < 2 ^ 64 := by
  constructor
  · rintro ⟨hcollateral, hdebt⟩
    rw [← hcollateral, ← hdebt]
    exact ⟨BitVec.isLt _, BitVec.isLt _⟩
  · intro hfits
    exact ((runsExactly_iff ops p).mpr hfits).position ops p

end Sums

/-! ## The simulation -/

/-- The output decrypts, under its own nonce, to `p`. -/
def Output.Carries (p : PrivatePosition) (out : Output) : Prop :=
  ∃ encState nonce, (out = .addCollateral encState nonce ∨ out = .addBorrow encState nonce) ∧
    mxe.decrypt nonce encState = p

/-- The position is `p`, or becomes `p` when the one computation in flight arrives. -/
inductive Tracks (p : PrivatePosition) : PrivateState → Prop
  | quiet (account : PrivateObligation) (hinit : account.isInitialized = true)
      (h : mxe.decrypt account.nonce account.encState = p) : Tracks p ⟨account, [], []⟩
  | queued (account : PrivateObligation) (c : Computation) (hinit : account.isInitialized = true)
      (h : ∀ fresh, (mxe.run c account.encState fresh).Carries mxe p) : Tracks p ⟨account, [c], []⟩
  | executed (account : PrivateObligation) (out : Output) (hinit : account.isInitialized = true)
      (h : out.Carries mxe p) : Tracks p ⟨account, [], [out]⟩

variable {mxe} {p : PrivatePosition} {s s' : PrivateState} {op : PrivateOp}

theorem Tracks.isInitialized (h : Tracks mxe p s) : s.account.isInitialized = true := by
  cases h with
  | quiet _ hinit _ => exact hinit
  | queued _ _ hinit _ => exact hinit
  | executed _ _ hinit _ => exact hinit

theorem Tracks.position (h : Tracks mxe p s) (hquiet : s.Quiet) : s.position mxe = p := by
  cases h with
  | quiet _ _ hp => exact hp
  | queued _ _ _ _ => exact absurd hquiet.1 (List.cons_ne_nil _ _)
  | executed _ _ _ _ => exact absurd hquiet.2 (List.cons_ne_nil _ _)

/-- A queued addition carries the sum, whatever nonce the cluster picks. -/
theorem carries_addCollateral (a : SharedAmount) (nonce fresh : U128) (encState : EncState) :
    (mxe.run ⟨.addCollateral a, nonce⟩ encState fresh).Carries mxe
      (Circuits.addCollateralV2 (mxe.openShared a) (mxe.decrypt nonce encState)) :=
  ⟨_, fresh, .inl rfl, mxe.decrypt_encrypt _ _⟩

theorem carries_addBorrow (a : SharedAmount) (nonce fresh : U128) (encState : EncState) :
    (mxe.run ⟨.addBorrow a, nonce⟩ encState fresh).Carries mxe
      (Circuits.addBorrowV2 (mxe.openShared a) (mxe.decrypt nonce encState)) :=
  ⟨_, fresh, .inr rfl, mxe.decrypt_encrypt _ _⟩

/-- The callback of an addition stores what its output carries. -/
theorem position_callback {account : PrivateObligation} {out : Output}
    (hinit : account.isInitialized = true) (h : out.Carries mxe p) :
    Tracks mxe p ⟨account.callback out, [], []⟩ := by
  rcases h with ⟨encState, nonce, rfl | rfl, hp⟩
  · exact .quiet _ hinit hp
  · exact .quiet _ hinit hp

/-- A deposit queued in a quiet state promises the deposited position. -/
theorem Tracks.depositCollateral {k : Pubkey} {a : SharedAmount} (h : Tracks mxe p s)
    (hquiet : s.Quiet) (hexec : s.privateDepositCollateral k a = .ok s') :
    Tracks mxe (Circuits.addCollateralV2 (mxe.openShared a) p) s' := by
  obtain ⟨account, queued, outputs⟩ := s
  obtain ⟨rfl, rfl⟩ : queued = [] ∧ outputs = [] := hquiet
  have hinit : account.isInitialized = true := h.isInitialized
  have hp : mxe.decrypt account.nonce account.encState = p := h.position ⟨rfl, rfl⟩
  simp only [PrivateState.privateDepositCollateral, bind_eq_ok, require_eq_ok, exists_const,
    pure_eq_ok, PrivateState.queue, List.nil_append] at hexec
  obtain ⟨-, rfl⟩ := hexec
  rw [← hp]
  split
  case isTrue => exact .queued _ _ hinit fun fresh => carries_addCollateral a _ fresh _
  case isFalse => exact .queued _ _ hinit fun fresh => carries_addCollateral a _ fresh _

theorem Tracks.borrow {k : Pubkey} {a : SharedAmount} (h : Tracks mxe p s)
    (hquiet : s.Quiet) (hexec : s.privateBorrow k a = .ok s') :
    Tracks mxe (Circuits.addBorrowV2 (mxe.openShared a) p) s' := by
  obtain ⟨account, queued, outputs⟩ := s
  obtain ⟨rfl, rfl⟩ : queued = [] ∧ outputs = [] := hquiet
  have hinit : account.isInitialized = true := h.isInitialized
  have hp : mxe.decrypt account.nonce account.encState = p := h.position ⟨rfl, rfl⟩
  simp only [PrivateState.privateBorrow, bind_eq_ok, require_eq_ok, exists_const,
    pure_eq_ok, PrivateState.queue, List.nil_append] at hexec
  obtain ⟨-, rfl⟩ := hexec
  rw [← hp]
  split
  case isTrue => exact .queued _ _ hinit fun fresh => carries_addBorrow a _ fresh _
  case isFalse => exact .queued _ _ hinit fun fresh => carries_addBorrow a _ fresh _

/-- Executing the one queued computation keeps its promise. -/
theorem Tracks.execute (h : Tracks mxe p s) (i : Nat) (fresh : U128) :
    Tracks mxe p (s.execute mxe i fresh) := by
  cases h with
  | quiet account hinit hp => exact .quiet account hinit hp
  | queued account c hinit hc =>
      cases i with
      | zero => exact .executed account _ hinit (hc fresh)
      | succ i => exact .queued account c hinit hc
  | executed account out hinit hp => exact .executed account out hinit hp

/-- Delivering the one output fulfils it. -/
theorem Tracks.deliver (h : Tracks mxe p s) (i : Nat) : Tracks mxe p (s.deliver i) := by
  cases h with
  | quiet account hinit hp => exact .quiet account hinit hp
  | queued account c hinit hc => exact .queued account c hinit hc
  | executed account out hinit hp =>
      cases i with
      | zero => exact position_callback hinit hp
      | succ i => exact .executed account out hinit hp

/-- One step of the code, queueing only in quiet states, is one step of the abstract machine. -/
theorem tracks_tx (h : Tracks mxe p s) (hserial : op.Queues → s.Quiet) :
    Tracks mxe (credit mxe p op) (s.tx mxe op) := by
  have hready := h.isInitialized
  cases op with
  | depositCollateral k a =>
      obtain ⟨s', hexec⟩ : ∃ s', s.exec mxe (.depositCollateral k a) = .ok s' := by
        simp only [PrivateState.exec, PrivateState.privateDepositCollateral, hready, require_pos,
          ok_bind]
        exact ⟨_, rfl⟩
      rw [PrivateState.tx, attemptStep_ok hexec]
      exact h.depositCollateral (hserial trivial) hexec
  | borrow k a =>
      obtain ⟨s', hexec⟩ : ∃ s', s.exec mxe (.borrow k a) = .ok s' := by
        simp only [PrivateState.exec, PrivateState.privateBorrow, hready, require_pos, ok_bind]
        exact ⟨_, rfl⟩
      rw [PrivateState.tx, attemptStep_ok hexec]
      exact h.borrow (hserial trivial) hexec
  | execute i fresh => exact h.execute i fresh
  | deliver i => exact h.deliver i

/-- With every addition queued in a quiet state, what is left when nothing is in flight any more is
what the additions come to one after the other. -/
theorem position_of_serial (mxe : Mxe) (s : PrivateState) (ops : List PrivateOp)
    (hinit : s.account.isInitialized = true) (hquiet : s.Quiet)
    (hserial : EachStep (PrivateState.tx mxe) (fun t op => op.Queues → t.Quiet) s ops)
    (hend : (ops.foldl (PrivateState.tx mxe) s).Quiet) :
    (ops.foldl (PrivateState.tx mxe) s).position mxe =
      ops.foldl (credit mxe) (s.position mxe) := by
  obtain ⟨account, queued, outputs⟩ := s
  obtain ⟨rfl, rfl⟩ : queued = [] ∧ outputs = [] := hquiet
  have hstart : Tracks mxe (PrivateState.position mxe ⟨account, [], []⟩) ⟨account, [], []⟩ :=
    .quiet account hinit rfl
  have hstep : ∀ t u (op : PrivateOp), Tracks mxe t u → (op.Queues → u.Quiet) →
      Tracks mxe (credit mxe t op) (u.tx mxe op) := fun _ _ _ h hq => tracks_tx h hq
  exact (foldl_simulates hstep ops _ _ hstart hserial).position hend

/-- With every addition queued in a quiet state, the position after the last callback is the initial
one plus the sums of everything that was encrypted, exactly when these sums fit the words they are
kept in. -/
theorem position_of_serial_run (mxe : Mxe) (s : PrivateState) (ops : List PrivateOp)
    (hinit : s.account.isInitialized = true) (hquiet : s.Quiet)
    (hserial : EachStep (PrivateState.tx mxe) (fun t op => op.Queues → t.Quiet) s ops)
    (hend : (ops.foldl (PrivateState.tx mxe) s).Quiet) :
    AddsUp mxe (s.position mxe) ops ((ops.foldl (PrivateState.tx mxe) s).position mxe) ↔
      (s.position mxe).collateralTokens.toNat + collateralAdded mxe ops < 2 ^ 64 ∧
        (s.position mxe).borrowTokens.toNat + debtAdded mxe ops < 2 ^ 64 := by
  rw [position_of_serial mxe s ops hinit hquiet hserial hend]
  exact addsUp_foldl_iff ops _

/-! ## Two additions in flight -/

/-- An initialised, empty private obligation under nonce 1. -/
def emptyPrivate : PrivateState where
  account :=
    { (default : PrivateObligation) with
      encState := plainMxe.encrypt 1 ⟨0, 0⟩, nonce := 1, isInitialized := true }
  queued := []
  outputs := []

/-- Deposit 5, then deposit 7, one after the other. -/
def serialDeposits : List PrivateOp :=
  [.depositCollateral (.key 3) (plainAmount 5), .execute 0 2, .deliver 0,
    .depositCollateral (.key 3) (plainAmount 7), .execute 0 3, .deliver 0]

theorem position_of_serial_run_deposits :
    AddsUp plainMxe ⟨0, 0⟩ serialDeposits
      ((serialDeposits.foldl (PrivateState.tx plainMxe) emptyPrivate).position plainMxe) ∧
    collateralAdded plainMxe serialDeposits = 12 := by
  have hserial : EachStep (PrivateState.tx plainMxe) (fun t op => op.Queues → t.Quiet)
      emptyPrivate serialDeposits :=
    ⟨fun _ => ⟨rfl, rfl⟩, False.elim, False.elim, fun _ => ⟨by decide, by decide +kernel⟩,
      False.elim, False.elim, trivial⟩
  have hend : (serialDeposits.foldl (PrivateState.tx plainMxe) emptyPrivate).Quiet :=
    ⟨by decide, by decide +kernel⟩
  have hfits := position_of_serial_run plainMxe emptyPrivate serialDeposits rfl ⟨rfl, rfl⟩ hserial
    hend
  have hzero : emptyPrivate.position plainMxe = ⟨0, 0⟩ := by decide
  rw [hzero] at hfits
  exact ⟨hfits.mpr (by decide), by decide⟩

/-- Deposit 5 and deposit 7, both in flight at once: the one delivered last is all that is left. -/
def overlappedDeposits : List PrivateOp :=
  [.depositCollateral (.key 3) (plainAmount 5), .execute 0 2,
    .depositCollateral (.key 3) (plainAmount 7), .execute 0 3, .deliver 0, .deliver 0]

theorem not_forall_position_of_run :
    ¬ ∀ (mxe : Mxe) (s : PrivateState) (ops : List PrivateOp),
        s.account.isInitialized = true → s.Quiet →
        (ops.foldl (PrivateState.tx mxe) s).Quiet →
        AddsUp mxe (s.position mxe) ops ((ops.foldl (PrivateState.tx mxe) s).position mxe) := by
  intro hall
  have hend : (overlappedDeposits.foldl (PrivateState.tx plainMxe) emptyPrivate).Quiet :=
    ⟨by decide, by decide +kernel⟩
  have hsum := (hall plainMxe emptyPrivate overlappedDeposits rfl ⟨rfl, rfl⟩ hend).collateral
  revert hsum
  decide

end VeilVault
