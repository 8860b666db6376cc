/-
# VeilVault.Private.Events — everything that can happen to a private obligation.

The instructions that name it, the cluster's executions, the callbacks and the computations that are
lost, as one type of events.  The events that take something out of flight are described once, by
what they do to the lists (`Executed`, `Delivered`, `Lost`); what is in flight of one kind is
counted with `inFlight`.
-/
import Mathlib.Data.List.Basic
import VeilVault.Private.Machine

namespace VeilVault

open Kit

inductive PrivateEvent
  | init (owner lendingMarket : Pubkey)
  | depositCollateral (reserveKey : Pubkey) (amount : SharedAmount)
  | borrow (reserveKey : Pubkey) (amount : SharedAmount)
  | check (exchangeRateBps collateralPriceCents borrowPriceCents ltvBps : U64)
  | liquidate
  | execute (i : Nat) (fresh : U128)
  | deliver (i : Nat)
  | abort (executed : Bool) (i : Nat)
  deriving DecidableEq

namespace PrivateState

/-- What an event does to the account and to what is in flight for it. -/
def on (mxe : Mxe) (s : PrivateState) : PrivateEvent → Result PrivateState
  | .init owner market => s.initPrivateObligation owner market
  | .depositCollateral k amount => s.privateDepositCollateral k amount
  | .borrow k amount => s.privateBorrow k amount
  | .check rate cprice bprice ltv => s.privateCheckLiquidatable rate cprice bprice ltv
  | .liquidate => do
      require (s.account.isLiquidatable) .obligationHealthy
      return s.clearFlag
  | .execute i fresh => .ok (s.execute mxe i fresh)
  | .deliver i => .ok (s.deliver i)
  | .abort executed i => .ok (s.abort executed i)

/-! ## Taking something out of flight -/

/-- One queued computation runs, or none. -/
inductive Executed (mxe : Mxe) (s : PrivateState) (i : Nat) (fresh : U128) : PrivateState → Prop
  | idle (h : s.queued[i]? = none) : Executed mxe s i fresh s
  | run {c : Computation} {before after : List Computation} (hget : s.queued[i]? = some c)
      (hqueued : s.queued = before ++ c :: after) :
      Executed mxe s i fresh
        { s with
          queued := before ++ after
          outputs := s.outputs ++ [mxe.run c s.account.encState fresh] }

/-- One waiting output is handed to its callback, or none. -/
inductive Delivered (s : PrivateState) (i : Nat) : PrivateState → Prop
  | idle (h : s.outputs[i]? = none) : Delivered s i s
  | run {out : Output} {before after : List Output} (hget : s.outputs[i]? = some out)
      (houtputs : s.outputs = before ++ out :: after) :
      Delivered s i { s with account := s.account.callback out, outputs := before ++ after }

/-- Something in flight may be missing; all else is as it was. -/
structure Lost (s s' : PrivateState) : Prop where
  account : s'.account = s.account
  queued : s'.queued.Sublist s.queued
  outputs : s'.outputs.Sublist s.outputs

variable (mxe : Mxe) (s : PrivateState) (i : Nat) (fresh : U128)

theorem lost (executed : Bool) : s.Lost (s.abort executed i) := by
  cases executed with
  | true => exact ⟨rfl, .refl _, List.eraseIdx_sublist _ i⟩
  | false => exact ⟨rfl, List.eraseIdx_sublist _ i, .refl _⟩

@[simp]
theorem account_abort (executed : Bool) : (s.abort executed i).account = s.account :=
  (s.lost i executed).account

@[simp]
theorem account_execute : (s.execute mxe i fresh).account = s.account := by
  unfold execute
  split <;> rfl

/-- An index that names nothing erases nothing. -/
theorem queued_execute : (s.execute mxe i fresh).queued = s.queued.eraseIdx i := by
  unfold execute
  split
  case h_1 => rfl
  case h_2 hnone =>
    rw [List.getElem?_eq_none_iff] at hnone
    rw [List.eraseIdx_of_length_le hnone]

theorem outputs_execute : (s.execute mxe i fresh).outputs =
    s.outputs ++ (s.queued[i]?.map fun c => mxe.run c s.account.encState fresh).toList := by
  unfold execute
  split
  case h_1 hc =>
    rw [hc]
    rfl
  case h_2 hnone =>
    rw [hnone]
    exact (List.append_nil _).symm

theorem outputs_deliver : (s.deliver i).outputs = s.outputs.eraseIdx i := by
  unfold deliver
  split
  case h_1 => rfl
  case h_2 hnone =>
    rw [List.getElem?_eq_none_iff] at hnone
    rw [List.eraseIdx_of_length_le hnone]

theorem account_deliver {out : Output} (h : s.outputs[i]? = some out) :
    (s.deliver i).account = s.account.callback out := by
  unfold deliver
  rw [h]

/-- An index that names nothing delivers nothing. -/
theorem deliver_none (h : s.outputs[i]? = none) : s.deliver i = s := by
  unfold deliver
  rw [h]

@[simp]
theorem queued_deliver : (s.deliver i).queued = s.queued := by
  unfold deliver
  split <;> rfl

/-- Callbacks do not choose reserves. -/
theorem reserves_deliver : (s.deliver i).account.collateralReserve = s.account.collateralReserve ∧
    (s.deliver i).account.borrowReserve = s.account.borrowReserve := by
  unfold deliver
  split
  case h_1 out _ => cases out <;> exact ⟨rfl, rfl⟩
  case h_2 => exact ⟨rfl, rfl⟩

/-- Reading a list at an index splits it there. -/
theorem eq_append_of_getElem? {α : Type} {l : List α} {i : Nat} {a : α} (h : l[i]? = some a) :
    l = l.take i ++ a :: l.drop (i + 1) ∧ l.eraseIdx i = l.take i ++ l.drop (i + 1) := by
  obtain ⟨hi, rfl⟩ := List.getElem?_eq_some_iff.mp h
  constructor
  · rw [List.getElem_cons_drop, List.take_append_drop]
  · exact List.eraseIdx_eq_take_drop_succ l i

theorem executed : Executed mxe s i fresh (s.execute mxe i fresh) := by
  unfold execute
  split
  case h_1 c hc =>
    obtain ⟨hsplit, herase⟩ := eq_append_of_getElem? hc
    rw [herase]
    exact .run hc hsplit
  case h_2 hnone => exact .idle hnone

theorem delivered : Delivered s i (s.deliver i) := by
  unfold deliver
  split
  case h_1 out hout =>
    obtain ⟨hsplit, herase⟩ := eq_append_of_getElem? hout
    rw [herase]
    exact .run hout hsplit
  case h_2 hnone => exact .idle hnone

end PrivateState

/-! ## Kinds of computations -/

/-- The circuit, whatever its arguments. -/
inductive CircuitKind
  | initPosition
  | addCollateral
  | addBorrow
  | checkHealth
  deriving DecidableEq, Repr

def Circuit.kind : Circuit → CircuitKind
  | .initPosition => .initPosition
  | .addCollateral _ => .addCollateral
  | .addBorrow _ => .addBorrow
  | .checkHealth .. => .checkHealth

/-- The circuit that an output comes from. -/
def Output.kind : Output → CircuitKind
  | .initPosition .. => .initPosition
  | .addCollateral .. => .addCollateral
  | .addBorrow .. => .addBorrow
  | .checkHealth _ => .checkHealth

@[simp]
theorem Mxe.kind_run (mxe : Mxe) (c : Computation) (encState : EncState) (fresh : U128) :
    (mxe.run c encState fresh).kind = c.circuit.kind := by
  obtain ⟨circuit, nonce⟩ := c
  cases circuit <;> rfl

namespace PrivateState

/-- How many computations of a kind are in flight, executed or not. -/
def inFlight (s : PrivateState) (kind : CircuitKind) : Nat :=
  s.queued.countP (fun c => c.circuit.kind = kind) + s.outputs.countP (fun out => out.kind = kind)

variable {s s' : PrivateState} {kind : CircuitKind}

/-- An execution changes which list a computation is in. -/
theorem inFlight_execute (mxe : Mxe) (s : PrivateState) (i : Nat) (fresh : U128) :
    (s.execute mxe i fresh).inFlight kind = s.inFlight kind := by
  have hspec := s.executed mxe i fresh
  generalize s.execute mxe i fresh = t at hspec ⊢
  cases hspec with
  | idle _ => rfl
  | run _ hqueued =>
      simp only [inFlight, hqueued, List.countP_append, List.countP_cons, List.countP_nil,
        Mxe.kind_run]
      omega

theorem Lost.inFlight_le (h : s.Lost s') (kind : CircuitKind) :
    s'.inFlight kind ≤ s.inFlight kind :=
  Nat.add_le_add h.queued.countP_le h.outputs.countP_le

/-- A callback ends one computation. -/
theorem inFlight_deliver {i : Nat} {out : Output} (h : s.outputs[i]? = some out) :
    s.inFlight kind = (s.deliver i).inFlight kind + if out.kind = kind then 1 else 0 := by
  have hspec := s.delivered i
  generalize s.deliver i = t at hspec ⊢
  cases hspec with
  | idle hnone =>
      rw [hnone] at h
      cases h
  | run hget houtputs =>
      obtain rfl := Option.some.inj (h.symm.trans hget)
      simp only [inFlight, houtputs, List.countP_append, List.countP_cons, decide_eq_true_eq]
      omega

end PrivateState

/-! ## Queueing -/

/-- The circuit an event queues. -/
def PrivateEvent.circuit : PrivateEvent → Option Circuit
  | .init .. => some .initPosition
  | .depositCollateral _ amount => some (.addCollateral amount)
  | .borrow _ amount => some (.addBorrow amount)
  | .check rate cprice bprice ltv => some (.checkHealth rate cprice bprice ltv)
  | .liquidate | .execute .. | .deliver .. | .abort .. => none

namespace PrivateState

/-- The fields that only callbacks write. -/
structure SamePosition (s s' : PrivateState) : Prop where
  encState : s'.account.encState = s.account.encState
  nonce : s'.account.nonce = s.account.nonce

theorem SamePosition.refl (s : PrivateState) : s.SamePosition s := ⟨rfl, rfl⟩

/-- An instruction that queues a circuit: before it, the account was initialised exactly when the
circuit is not the initial one, and it is so afterwards. -/
structure Queued (s : PrivateState) (circuit : Circuit) (s' : PrivateState) : Prop where
  queued : s'.queued = s.queued ++ [{ circuit, nonce := s.account.nonce }]
  outputs : s'.outputs = s.outputs
  position : s.SamePosition s'
  before : s.account.isInitialized = decide (circuit.kind ≠ .initPosition)
  after : s'.account.isInitialized = s.account.isInitialized
  flag : s'.account.isLiquidatable = true → s.account.isLiquidatable = true

variable {mxe : Mxe} {s s' : PrivateState} {ev : PrivateEvent} {circuit : Circuit}

theorem queued_of_on (hev : ev.circuit = some circuit) (h : s.on mxe ev = .ok s') :
    s.Queued circuit s' := by
  cases ev with
  | init owner market =>
      cases hev
      simp only [on, initPrivateObligation, bind_eq_ok, require_eq_ok, exists_const,
        pure_eq_ok] at h
      obtain ⟨hinit, rfl⟩ := h
      exact ⟨rfl, rfl, ⟨rfl, rfl⟩, hinit, hinit.symm, fun hflag => (by cases hflag)⟩
  | depositCollateral k amount =>
      cases hev
      simp only [on, privateDepositCollateral, bind_eq_ok, require_eq_ok, exists_const,
        pure_eq_ok] at h
      obtain ⟨hinit, rfl⟩ := h
      split
      · exact ⟨rfl, rfl, ⟨rfl, rfl⟩, hinit, rfl, id⟩
      · exact ⟨rfl, rfl, ⟨rfl, rfl⟩, hinit, rfl, id⟩
  | borrow k amount =>
      cases hev
      simp only [on, privateBorrow, bind_eq_ok, require_eq_ok, exists_const, pure_eq_ok] at h
      obtain ⟨hinit, rfl⟩ := h
      split
      · exact ⟨rfl, rfl, ⟨rfl, rfl⟩, hinit, rfl, id⟩
      · exact ⟨rfl, rfl, ⟨rfl, rfl⟩, hinit, rfl, id⟩
  | check rate cprice bprice ltv =>
      cases hev
      simp only [on, privateCheckLiquidatable, bind_eq_ok, require_eq_ok, exists_const,
        pure_eq_ok] at h
      obtain ⟨hinit, rfl⟩ := h
      exact ⟨rfl, rfl, ⟨rfl, rfl⟩, hinit, rfl, id⟩
  | liquidate | execute | deliver | abort => cases hev

theorem Queued.inFlight (h : s.Queued circuit s') (kind : CircuitKind) :
    s'.inFlight kind = s.inFlight kind + if circuit.kind = kind then 1 else 0 := by
  simp only [PrivateState.inFlight, h.queued, h.outputs, List.countP_append, List.countP_singleton,
    decide_eq_true_eq]
  omega

theorem clearFlag_of_on (h : s.on mxe .liquidate = .ok s') :
    s.account.isLiquidatable = true ∧ s' = s.clearFlag := by
  simp only [on, bind_eq_ok, require_eq_ok, exists_const, pure_eq_ok] at h
  exact h

end PrivateState

end VeilVault
