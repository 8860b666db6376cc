/-
# VeilVault.Private.Visible — what an observer of the chain sees of a private obligation.

`visible` blanks the ciphertexts and the nonce, in the account and in everything in flight, and
keeps the rest: the other fields, which circuits are queued and with which public arguments, which
outputs wait, and the one bit a health check reveals.  Each operation on a private obligation
depends on the visible part only, except the execution of a circuit, and that only through the bit.
-/
import Mathlib.Data.List.InsertIdx
import VeilVault.Private.Machine

namespace VeilVault

open Kit

/-! ## Blanking -/

/-- An encrypted amount nothing is known about. -/
def SharedAmount.blank : SharedAmount := ⟨0, 0, 0⟩

def Circuit.visible : Circuit → Circuit
  | .addCollateral _ => .addCollateral .blank
  | .addBorrow _ => .addBorrow .blank
  | .initPosition => .initPosition
  | .checkHealth rate collateralPrice borrowPrice ltv =>
      .checkHealth rate collateralPrice borrowPrice ltv

def Computation.visible (c : Computation) : Computation where
  circuit := c.circuit.visible
  nonce := 0

def Output.visible : Output → Output
  | .initPosition _ _ => .initPosition default 0
  | .addCollateral _ _ => .addCollateral default 0
  | .addBorrow _ _ => .addBorrow default 0
  | .checkHealth isHealthy => .checkHealth isHealthy

def PrivateObligation.visible (p : PrivateObligation) : PrivateObligation :=
  { p with encState := default, nonce := 0 }

def PrivateState.visible (s : PrivateState) : PrivateState where
  account := s.account.visible
  queued := s.queued.map (·.visible)
  outputs := s.outputs.map (·.visible)

@[simp]
theorem Circuit.visible_visible (c : Circuit) : c.visible.visible = c.visible := by
  cases c <;> rfl

@[simp]
theorem Computation.visible_visible (c : Computation) : c.visible.visible = c.visible := by
  simp only [visible, Circuit.visible_visible]

@[simp]
theorem Output.visible_visible (out : Output) : out.visible.visible = out.visible := by
  cases out <;> rfl

@[simp]
theorem PrivateState.visible_visible (s : PrivateState) : s.visible.visible = s.visible := by
  simp only [visible, PrivateObligation.visible, List.map_map, Function.comp_def,
    Computation.visible_visible, Output.visible_visible]

/-! ## Operations on the visible part -/

/-- The fields that the instructions test. -/
theorem PrivateState.tested_of_visible {s t : PrivateState} (h : s.visible = t.visible) :
    s.account.owner = t.account.owner ∧ s.account.isInitialized = t.account.isInitialized ∧
      s.account.isLiquidatable = t.account.isLiquidatable := by
  have haccount : s.account.visible = t.account.visible := congrArg PrivateState.account h
  simp only [PrivateObligation.visible, PrivateObligation.mk.injEq] at haccount
  obtain ⟨-, -, howner, -, -, -, hliquidatable, hinitialized⟩ := haccount
  exact ⟨howner, hinitialized, hliquidatable⟩

/-- A callback with an output that looks the same leaves an account that looks the same. -/
theorem PrivateObligation.visible_callback (p : PrivateObligation) (out : Output) :
    (p.visible.callback out.visible).visible = (p.callback out).visible := by
  cases out <;> rfl

namespace PrivateState

variable (s : PrivateState)

theorem visible_queue (circuit : Circuit) :
    (s.visible.queue circuit.visible).visible = (s.queue circuit).visible := by
  simp only [queue, visible, Computation.visible, PrivateObligation.visible, List.map_append,
    List.map_map, Function.comp_def, Circuit.visible_visible, Output.visible_visible,
    List.map_cons, List.map_nil]

/-- What the account keeps in the clear is what the instructions test. -/
theorem visible_initPrivateObligation (owner lendingMarket : Pubkey) :
    visible <$> s.visible.initPrivateObligation owner lendingMarket =
      visible <$> s.initPrivateObligation owner lendingMarket := by
  simp only [initPrivateObligation, map_bind, map_pure]
  apply congrArg (Bind.bind _)
  funext _
  apply congrArg pure
  exact visible_queue { s with account := { s.account with
    owner, lendingMarket, collateralReserve := default, borrowReserve := default
    isInitialized := false, isLiquidatable := false } } .initPosition

theorem visible_privateDepositCollateral (reserveKey : Pubkey) (amount : SharedAmount) :
    visible <$> s.visible.privateDepositCollateral reserveKey .blank =
      visible <$> s.privateDepositCollateral reserveKey amount := by
  simp only [privateDepositCollateral, map_bind, map_pure]
  apply congrArg (Bind.bind _)
  funext _
  apply congrArg pure
  show visible (queue { s.visible with account := ite (s.account.collateralReserve = default) _ _ }
    _) = _
  split
  case isTrue =>
    exact visible_queue { s with account := { s.account with collateralReserve := reserveKey } }
      (.addCollateral amount)
  case isFalse => exact visible_queue s (.addCollateral amount)

theorem visible_privateBorrow (reserveKey : Pubkey) (amount : SharedAmount) :
    visible <$> s.visible.privateBorrow reserveKey .blank =
      visible <$> s.privateBorrow reserveKey amount := by
  simp only [privateBorrow, map_bind, map_pure]
  apply congrArg (Bind.bind _)
  funext _
  apply congrArg pure
  show visible (queue { s.visible with account := ite (s.account.borrowReserve = default) _ _ }
    _) = _
  split
  case isTrue =>
    exact visible_queue { s with account := { s.account with borrowReserve := reserveKey } }
      (.addBorrow amount)
  case isFalse => exact visible_queue s (.addBorrow amount)

theorem visible_privateCheckLiquidatable (rate collateralPrice borrowPrice ltv : U64) :
    visible <$> s.visible.privateCheckLiquidatable rate collateralPrice borrowPrice ltv =
      visible <$> s.privateCheckLiquidatable rate collateralPrice borrowPrice ltv := by
  simp only [privateCheckLiquidatable, map_bind, map_pure]
  apply congrArg (Bind.bind _)
  funext _
  apply congrArg pure
  exact visible_queue s (.checkHealth rate collateralPrice borrowPrice ltv)

theorem visible_clearFlag : s.visible.clearFlag.visible = s.clearFlag.visible := by
  simp only [clearFlag, visible, PrivateObligation.visible, List.map_map, Function.comp_def,
    Computation.visible_visible, Output.visible_visible]

theorem visible_deliver (i : Nat) : (s.visible.deliver i).visible = (s.deliver i).visible := by
  have hget : s.visible.outputs[i]? = s.outputs[i]?.map (·.visible) := List.getElem?_map
  unfold deliver
  rw [hget]
  cases s.outputs[i]? with
  | none => exact s.visible_visible
  | some out =>
      simp only [Option.map_some, visible, List.map_map, List.eraseIdx_map,
        Function.comp_def, Computation.visible_visible, Output.visible_visible]
      congr 1
      exact s.account.visible_callback out

/-- What is lost is lost from the visible lists. -/
theorem visible_abort (executed : Bool) (i : Nat) :
    (s.abort executed i).visible = s.visible.abort executed i := by
  cases executed with
  | true => simp only [abort, if_true, visible, List.eraseIdx_map]
  | false => simp only [abort, Bool.false_eq_true, if_false, visible, List.eraseIdx_map]

end PrivateState

/-! ## Executing a circuit -/

/-- The bit a health check reveals when it runs on these ciphertexts; no other circuit reveals
one. -/
def Mxe.verdict (mxe : Mxe) (c : Computation) (encState : EncState) : Option Bool :=
  match c.circuit with
  | .checkHealth rate collateralPrice borrowPrice ltv =>
      some (Circuits.checkHealthV2 (mxe.decrypt c.nonce encState) rate collateralPrice borrowPrice
        ltv)
  | .initPosition | .addCollateral _ | .addBorrow _ => none

/-- Computations that look alike have outputs that look alike, given equal bits. -/
theorem Mxe.visible_run (mxe : Mxe) {c c' : Computation} {e e' : EncState} (fresh fresh' : U128)
    (hc : c.visible = c'.visible) (hbit : mxe.verdict c e = mxe.verdict c' e') :
    (mxe.run c e fresh).visible = (mxe.run c' e' fresh').visible := by
  obtain ⟨circuit, nonce⟩ := c
  obtain ⟨circuit', nonce'⟩ := c'
  have hcircuit : circuit.visible = circuit'.visible := congrArg Computation.circuit hc
  cases circuit with
  | initPosition =>
      cases circuit' <;> cases hcircuit
      rfl
  | addCollateral a =>
      cases circuit' <;> cases hcircuit
      rfl
  | addBorrow a =>
      cases circuit' <;> cases hcircuit
      rfl
  | checkHealth rate cprice bprice ltv =>
      cases circuit' <;> cases hcircuit
      exact congrArg Output.checkHealth (Option.some.inj hbit)

namespace PrivateState

/-- The bit that the `i`-th queued computation would reveal now. -/
def verdict (mxe : Mxe) (s : PrivateState) (i : Nat) : Option Bool :=
  s.queued[i]?.bind fun c => mxe.verdict c s.account.encState

theorem visible_execute {mxe : Mxe} {s t : PrivateState} {i : Nat} (fresh fresh' : U128)
    (h : s.visible = t.visible) (hbit : s.verdict mxe i = t.verdict mxe i) :
    (s.execute mxe i fresh).visible = (t.execute mxe i fresh').visible := by
  have hqueued : s.queued.map (·.visible) = t.queued.map (·.visible) :=
    congrArg PrivateState.queued h
  have hoff : s.queued[i]?.map (·.visible) = t.queued[i]?.map (·.visible) := by
    rw [← List.getElem?_map, ← List.getElem?_map, hqueued]
  have herase : (s.queued.eraseIdx i).map (·.visible) = (t.queued.eraseIdx i).map (·.visible) := by
    rw [← List.eraseIdx_map, ← List.eraseIdx_map, hqueued]
  have haccount : s.account.visible = t.account.visible := congrArg PrivateState.account h
  have houtputs : s.outputs.map (·.visible) = t.outputs.map (·.visible) :=
    congrArg PrivateState.outputs h
  unfold verdict at hbit
  unfold execute
  cases hs : s.queued[i]? with
  | none =>
      cases ht : t.queued[i]? with
      | none => exact h
      | some c' =>
          rw [hs, ht] at hoff
          cases hoff
  | some c =>
      cases ht : t.queued[i]? with
      | none =>
          rw [hs, ht] at hoff
          cases hoff
      | some c' =>
          rw [hs, ht] at hoff hbit
          have hrun := mxe.visible_run fresh fresh' (Option.some.inj hoff) hbit
          simp only [visible, List.map_append, List.map_cons, List.map_nil, herase, haccount,
            houtputs, hrun]

end PrivateState

end VeilVault
