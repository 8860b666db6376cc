/-
# VeilVault.Private.Sides — the two recorded reserves of a private obligation.

The encrypted position has one counter for collateral and one for debt; the reserve each counts in
is recorded in the clear, by the first deposit or borrow that finds the field empty.  This file
follows one side through the events: the field holds the first reserve that was ever added on that
side, and nothing but an initialisation that comes before all of them empties it.
-/
import VeilVault.Private.Events

namespace VeilVault

open Kit

inductive Side
  | collateral
  | borrow
  deriving DecidableEq, Repr

namespace PrivateObligation

/-- The reserve recorded for a side. -/
def reserveOn (p : PrivateObligation) : Side → Pubkey
  | .collateral => p.collateralReserve
  | .borrow => p.borrowReserve

end PrivateObligation

namespace PrivateEvent

/-- The reserve whose units an event adds to a side's counter. -/
def addsOn : Side → PrivateEvent → Option Pubkey
  | .collateral, .depositCollateral reserveKey _ => some reserveKey
  | .borrow, .borrow reserveKey _ => some reserveKey
  | _, _ => none

end PrivateEvent

namespace PrivateState

variable {mxe : Mxe} {s s' : PrivateState} {side : Side} {ks : List Pubkey} {ev : PrivateEvent}

/-- The recorded reserve is the first of those added on the side, if there were any. -/
structure Records (s : PrivateState) (side : Side) (ks : List Pubkey) : Prop where
  first : s.account.reserveOn side = ks.headD default
  reserves : ∀ k ∈ ks, k ≠ default
  initialized : ks ≠ [] → s.account.isInitialized = true

/-- Before anything is added the field is empty. -/
theorem records_nil (h : s.account.reserveOn side = default) : s.Records side [] where
  first := h
  reserves := fun _ hk => absurd hk List.not_mem_nil
  initialized := fun hne => absurd rfl hne

/-- Whoever adds nothing on the side leaves its field alone. -/
theorem Records.congr (h : s.Records side ks)
    (hreserve : s'.account.reserveOn side = s.account.reserveOn side)
    (hinit : s.account.isInitialized = true → s'.account.isInitialized = true) :
    s'.Records side ks where
  first := hreserve.trans h.first
  reserves := h.reserves
  initialized := fun hne => hinit (h.initialized hne)

/-- A deposit or borrow fills its field, or finds it filled. -/
theorem Records.add {k : Pubkey} (h : s.Records side ks) (hk : k ≠ default)
    (hinit : s'.account.isInitialized = true)
    (hreserve : s'.account.reserveOn side =
      if s.account.reserveOn side = default then k else s.account.reserveOn side) :
    s'.Records side (ks ++ [k]) where
  first := by
    rw [hreserve, h.first]
    cases ks with
    | nil => exact if_pos rfl
    | cons c cs => exact if_neg (h.reserves c List.mem_cons_self)
  reserves := by
    intro x hx
    rcases List.mem_append.mp hx with hold | hnew
    · exact h.reserves x hold
    · rw [List.mem_singleton.mp hnew]
      exact hk
  initialized := fun _ => hinit

/-! ## Events -/

theorem isInitialized_deliver (i : Nat) (h : s.account.isInitialized = true) :
    (s.deliver i).account.isInitialized = true := by
  unfold deliver
  split
  case h_1 out _ =>
    cases out with
    | initPosition => rfl
    | addCollateral | addBorrow | checkHealth => exact h
  case h_2 => exact h

/-- A deposit fills an empty collateral field, and no other. -/
theorem fillCollateral_account (p : PrivateObligation) (k : Pubkey) (amount : SharedAmount) :
    let p' := if p.collateralReserve = default then { p with collateralReserve := k } else p
    p'.isInitialized = p.isInitialized ∧ ∀ side, p'.reserveOn side =
      match (PrivateEvent.depositCollateral k amount).addsOn side with
      | some k => if p.reserveOn side = default then k else p.reserveOn side
      | none => p.reserveOn side := by
  intro p'
  by_cases hempty : p.collateralReserve = default
  · have hp' : p' = { p with collateralReserve := k } := if_pos hempty
    rw [hp']
    refine ⟨rfl, fun side => ?_⟩
    cases side with
    | collateral => exact (if_pos hempty).symm
    | borrow => rfl
  · have hp' : p' = p := if_neg hempty
    rw [hp']
    refine ⟨rfl, fun side => ?_⟩
    cases side with
    | collateral => exact (if_neg hempty).symm
    | borrow => rfl

/-- A borrow fills an empty debt field, and no other. -/
theorem fillBorrow_account (p : PrivateObligation) (k : Pubkey) (amount : SharedAmount) :
    let p' := if p.borrowReserve = default then { p with borrowReserve := k } else p
    p'.isInitialized = p.isInitialized ∧ ∀ side, p'.reserveOn side =
      match (PrivateEvent.borrow k amount).addsOn side with
      | some k => if p.reserveOn side = default then k else p.reserveOn side
      | none => p.reserveOn side := by
  intro p'
  by_cases hempty : p.borrowReserve = default
  · have hp' : p' = { p with borrowReserve := k } := if_pos hempty
    rw [hp']
    refine ⟨rfl, fun side => ?_⟩
    cases side with
    | collateral => rfl
    | borrow => exact (if_pos hempty).symm
  · have hp' : p' = p := if_neg hempty
    rw [hp']
    refine ⟨rfl, fun side => ?_⟩
    cases side with
    | collateral => rfl
    | borrow => exact (if_neg hempty).symm

/-- An event on an initialised account adds on at most one side, and leaves the other. -/
theorem reserveOn_of_on (hon : s.on mxe ev = .ok s') (hinit : s.account.isInitialized = true)
    (side : Side) :
    s'.account.isInitialized = true ∧ s'.account.reserveOn side =
      match ev.addsOn side with
      | some k => if s.account.reserveOn side = default then k else s.account.reserveOn side
      | none => s.account.reserveOn side := by
  cases ev with
  -- an initialised account is not initialised again
  | init owner market =>
      simp only [PrivateState.on, initPrivateObligation, bind_eq_ok, require_eq_ok, exists_const,
        hinit, reduceCtorEq, false_and] at hon
  | depositCollateral k amount =>
      simp only [PrivateState.on, privateDepositCollateral, bind_eq_ok, require_eq_ok,
        exists_const, pure_eq_ok] at hon
      obtain ⟨-, rfl⟩ := hon
      obtain ⟨hkept, hreserve⟩ := fillCollateral_account s.account k amount
      exact ⟨hkept.trans hinit, hreserve side⟩
  | borrow k amount =>
      simp only [PrivateState.on, privateBorrow, bind_eq_ok, require_eq_ok, exists_const,
        pure_eq_ok] at hon
      obtain ⟨-, rfl⟩ := hon
      obtain ⟨hkept, hreserve⟩ := fillBorrow_account s.account k amount
      exact ⟨hkept.trans hinit, hreserve side⟩
  | check rate cprice bprice ltv =>
      simp only [PrivateState.on, privateCheckLiquidatable, bind_eq_ok, require_eq_ok,
        exists_const, pure_eq_ok] at hon
      obtain ⟨-, rfl⟩ := hon
      cases side <;> exact ⟨hinit, rfl⟩
  | liquidate =>
      simp only [PrivateState.on, bind_eq_ok, require_eq_ok, exists_const, pure_eq_ok] at hon
      obtain ⟨-, rfl⟩ := hon
      cases side <;> exact ⟨hinit, rfl⟩
  | execute i fresh =>
      cases hon
      rw [account_execute]
      cases side <;> exact ⟨hinit, rfl⟩
  | deliver i =>
      cases hon
      refine ⟨isInitialized_deliver i hinit, ?_⟩
      cases side with
      | collateral => exact (reserves_deliver s i).1
      | borrow => exact (reserves_deliver s i).2
  | abort executed i =>
      cases hon
      rw [account_abort]
      cases side <;> exact ⟨hinit, rfl⟩

/-- Before it is initialised, nothing is added to an account, and its fields only get emptied. -/
theorem addsOn_of_on (hon : s.on mxe ev = .ok s') (hinit : s.account.isInitialized = false)
    (hempty : s.account.reserveOn side = default) :
    ev.addsOn side = none ∧ s'.account.reserveOn side = default := by
  cases ev with
  | init owner market =>
      simp only [PrivateState.on, initPrivateObligation, bind_eq_ok, require_eq_ok, exists_const,
        pure_eq_ok] at hon
      obtain ⟨-, rfl⟩ := hon
      cases side <;> exact ⟨rfl, rfl⟩
  | depositCollateral | borrow | check =>
      simp only [PrivateState.on, privateDepositCollateral, privateBorrow,
        privateCheckLiquidatable, bind_eq_ok, require_eq_ok, exists_const, hinit, reduceCtorEq,
        false_and] at hon
  | liquidate =>
      simp only [PrivateState.on, bind_eq_ok, require_eq_ok, exists_const, pure_eq_ok] at hon
      obtain ⟨-, rfl⟩ := hon
      cases side <;> exact ⟨rfl, hempty⟩
  | execute i fresh =>
      cases hon
      rw [account_execute]
      cases side <;> exact ⟨rfl, hempty⟩
  | deliver i =>
      cases hon
      cases side with
      | collateral => exact ⟨rfl, (reserves_deliver s i).1.trans hempty⟩
      | borrow => exact ⟨rfl, (reserves_deliver s i).2.trans hempty⟩
  | abort executed i =>
      cases hon
      rw [account_abort]
      cases side <;> exact ⟨rfl, hempty⟩

/-- The record follows every event. -/
theorem Records.on (h : s.Records side ks) (hon : s.on mxe ev = .ok s')
    (hk : ∀ k ∈ ev.addsOn side, k ≠ default) :
    s'.Records side (ks ++ (ev.addsOn side).toList) := by
  cases hinit : s.account.isInitialized with
  | false =>
      have hnone : ks = [] := by
        by_contra hne
        rw [h.initialized hne] at hinit
        cases hinit
      subst hnone
      obtain ⟨hadds, hreserve⟩ := addsOn_of_on hon hinit h.first
      rw [hadds]
      exact records_nil hreserve
  | true =>
      obtain ⟨hinit', hreserve⟩ := reserveOn_of_on hon hinit side
      cases hadds : ev.addsOn side with
      | none =>
          rw [hadds] at hreserve
          rw [Option.toList_none, List.append_nil]
          exact h.congr hreserve fun _ => hinit'
      | some k =>
          rw [hadds] at hreserve
          exact h.add (hk k hadds) hinit' hreserve

end PrivateState

end VeilVault
