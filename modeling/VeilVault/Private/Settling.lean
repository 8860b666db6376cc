/-
# VeilVault.Private.Settling — the position a private obligation arrives at.

A client who waits for each callback has at most one update in flight; checks may be in flight
beside it, since anybody queues them.  `Settles p` says that the position is `p`, or will be when
that update has arrived; whatever the cluster and the callbacks do, in whatever order and under
whatever nonces, keeps it (`Settles.works`).
-/
import VeilVault.Private.Events
import VeilVault.Private.Updates

namespace VeilVault

open Kit

namespace PrivateState

/-- The cluster or a callback at work. -/
inductive Works (mxe : Mxe) (s : PrivateState) : PrivateState → Prop
  | execute (i : Nat) (fresh : U128) : Works mxe s (s.execute mxe i fresh)
  | deliver (i : Nat) : Works mxe s (s.deliver i)

/-- Everything that can happen to the state without another call. -/
def Arrives (mxe : Mxe) : PrivateState → PrivateState → Prop := Relation.ReflTransGen (Works mxe)

/-- The computations in flight that will write the position. -/
def updates (s : PrivateState) : Nat :=
  s.inFlight .initPosition + s.inFlight .addCollateral + s.inFlight .addBorrow

/-- The position is `p`, or will be when the one update in flight arrives. -/
structure Settles (mxe : Mxe) (p : PrivatePosition) (s : PrivateState) : Prop where
  initialized : s.account.isInitialized = true
  single : s.updates ≤ 1
  idle : s.updates = 0 → s.position mxe = p
  queued : ∀ c ∈ s.queued, c.circuit.kind ≠ .checkHealth →
    ∀ fresh, (mxe.run c s.account.encState fresh).Carries mxe p
  outputs : ∀ out ∈ s.outputs, out.kind ≠ .checkHealth → out.Carries mxe p

variable {mxe : Mxe} {p : PrivatePosition} {s s' : PrivateState}

theorem updates_quiet (h : s.Quiet) : s.updates = 0 := by
  rw [updates, inFlight, inFlight, inFlight, h.1, h.2]
  rfl

theorem Settles.position (h : s.Settles mxe p) (hquiet : s.Quiet) : s.position mxe = p :=
  h.idle (updates_quiet hquiet)

theorem settles_of_quiet (hinit : s.account.isInitialized = true) (hquiet : s.Quiet) :
    s.Settles mxe (s.position mxe) where
  initialized := hinit
  single := by
    rw [updates_quiet hquiet]
    exact Nat.zero_le 1
  idle _ := rfl
  queued c hc := by
    rw [hquiet.1] at hc
    cases hc
  outputs out hout := by
    rw [hquiet.2] at hout
    cases hout

/-! ## Arrivals -/

theorem updates_execute (mxe : Mxe) (s : PrivateState) (i : Nat) (fresh : U128) :
    (s.execute mxe i fresh).updates = s.updates := by
  rw [updates, inFlight_execute, inFlight_execute, inFlight_execute]
  rfl

theorem Settles.execute (h : s.Settles mxe p) (i : Nat) (fresh : U128) :
    (s.execute mxe i fresh).Settles mxe p := by
  have hupdates := updates_execute mxe s i fresh
  have hspec := s.executed mxe i fresh
  generalize s.execute mxe i fresh = t at hspec hupdates ⊢
  cases hspec with
  | idle _ => exact h
  | @run c before after hget hqueued =>
      have hmem : c ∈ s.queued := List.mem_of_getElem? hget
      refine ⟨h.initialized, hupdates ▸ h.single, ?_, ?_, ?_⟩
      · intro hnone
        exact h.idle (hupdates ▸ hnone)
      · intro d hd
        apply h.queued d
        rw [hqueued]
        exact List.mem_append.mpr ((List.mem_append.mp hd).imp_right (List.mem_cons_of_mem c))
      · intro out hout hkind
        rcases List.mem_append.mp hout with hold | hnew
        · exact h.outputs out hold hkind
        · rw [List.mem_singleton] at hnew
          subst hnew
          rw [Mxe.kind_run] at hkind
          exact h.queued c hmem hkind fresh

theorem updates_deliver {i : Nat} {out : Output} (h : s.outputs[i]? = some out) :
    s.updates = (s.deliver i).updates + if out.kind = .checkHealth then 0 else 1 := by
  have hinit : s.inFlight .initPosition = _ := inFlight_deliver h
  have hcollateral : s.inFlight .addCollateral = _ := inFlight_deliver h
  have hborrow : s.inFlight .addBorrow = _ := inFlight_deliver h
  rw [updates, updates, hinit, hcollateral, hborrow]
  cases out.kind <;>
    · simp only [reduceCtorEq, if_true, if_false]
      omega

/-- With no update in flight, only checks are. -/
theorem kind_of_updates (h : s.updates = 0) : (∀ c ∈ s.queued, c.circuit.kind = .checkHealth) ∧
    ∀ out ∈ s.outputs, out.kind = .checkHealth := by
  have hnone : ∀ kind : CircuitKind, kind ≠ .checkHealth → s.inFlight kind = 0 := by
    intro kind hkind
    rw [updates] at h
    cases kind with
    | checkHealth => exact absurd rfl hkind
    | initPosition | addCollateral | addBorrow => omega
  constructor
  · intro c hc
    by_contra hkind
    have hcount := hnone _ hkind
    rw [inFlight, Nat.add_eq_zero_iff, List.countP_eq_zero] at hcount
    exact hcount.1 c hc (decide_eq_true rfl)
  · intro out hout
    by_contra hkind
    have hcount := hnone _ hkind
    rw [inFlight, Nat.add_eq_zero_iff, List.countP_eq_zero, List.countP_eq_zero] at hcount
    exact hcount.2 out hout (decide_eq_true rfl)

/-- A verdict that arrives leaves the position and what is promised about it. -/
theorem Settles.deliver_check {i : Nat} {out : Output} (h : s.Settles mxe p)
    (hget : s.outputs[i]? = some out) (hkind : out.kind = .checkHealth) :
    (s.deliver i).Settles mxe p := by
  have hsame := updates_deliver hget
  rw [if_pos hkind, Nat.add_zero] at hsame
  have hcallback : s.SamePosition (s.deliver i) ∧
      (s.deliver i).account.isInitialized = s.account.isInitialized := by
    have haccount := account_deliver s i hget
    cases out with
    | checkHealth b =>
        refine ⟨⟨?_, ?_⟩, ?_⟩ <;>
          · rw [haccount]
            rfl
    | initPosition | addCollateral | addBorrow => cases hkind
  obtain ⟨hposition, hinit⟩ := hcallback
  refine ⟨hinit.trans h.initialized, hsame ▸ h.single, ?_, ?_, ?_⟩
  · intro hnone
    rw [PrivateState.position, hposition.nonce, hposition.encState]
    exact h.idle (hsame ▸ hnone)
  · intro c hc
    rw [queued_deliver] at hc
    rw [hposition.encState]
    exact h.queued c hc
  · intro d hd
    rw [outputs_deliver] at hd
    exact h.outputs d (List.mem_of_mem_eraseIdx hd)

/-- The update that arrives writes what it promised, and nothing is promised any more. -/
theorem Settles.deliver_update {i : Nat} {out : Output} (h : s.Settles mxe p)
    (hget : s.outputs[i]? = some out) (hkind : out.kind ≠ .checkHealth) :
    (s.deliver i).Settles mxe p := by
  have hless := updates_deliver hget
  rw [if_neg hkind] at hless
  have hnone : (s.deliver i).updates = 0 := by
    have hsingle := h.single
    omega
  obtain ⟨hqueued, houtputs⟩ := kind_of_updates hnone
  have hwrites : (s.deliver i).account.isInitialized = true ∧
      (s.deliver i).position mxe = p := by
    rw [PrivateState.position, account_deliver s i hget]
    obtain ⟨encState, nonce, rfl | rfl, hp⟩ := h.outputs out (List.mem_of_getElem? hget) hkind
    · exact ⟨h.initialized, hp⟩
    · exact ⟨h.initialized, hp⟩
  exact ⟨hwrites.1, hnone ▸ Nat.zero_le 1, fun _ => hwrites.2,
    fun c hc hne => absurd (hqueued c hc) hne, fun d hd hne => absurd (houtputs d hd) hne⟩

theorem Settles.deliver (h : s.Settles mxe p) (i : Nat) : (s.deliver i).Settles mxe p := by
  cases hget : s.outputs[i]? with
  | none =>
      rw [deliver_none s i hget]
      exact h
  | some out =>
      by_cases hkind : out.kind = .checkHealth
      · exact h.deliver_check hget hkind
      · exact h.deliver_update hget hkind

theorem Settles.arrives (h : s.Settles mxe p) (harr : s.Arrives mxe s') : s'.Settles mxe p := by
  induction harr with
  | refl => exact h
  | tail _ hwork ih =>
      cases hwork with
      | execute i fresh => exact ih.execute i fresh
      | deliver i => exact ih.deliver i

/-- Everything in flight can arrive. -/
theorem exists_arrives_quiet (mxe : Mxe) (s : PrivateState) :
    ∃ t, s.Arrives mxe t ∧ t.Quiet := by
  induction hn : 2 * s.queued.length + s.outputs.length using Nat.strong_induction_on
    generalizing s with
  | _ n ih =>
      by_cases hqueued : s.queued = []
      · by_cases houtputs : s.outputs = []
        · exact ⟨s, .refl, hqueued, houtputs⟩
        · have hpos := List.length_pos_iff.mpr houtputs
          obtain ⟨t, harr, hquiet⟩ := ih _ (by
            rw [queued_deliver, outputs_deliver, List.length_eraseIdx_of_lt hpos]
            omega) (s.deliver 0) rfl
          exact ⟨t, .head (.deliver 0) harr, hquiet⟩
      · have hpos := List.length_pos_iff.mpr hqueued
        have hget : s.queued[0]? = some s.queued[0] := List.getElem?_eq_getElem hpos
        obtain ⟨t, harr, hquiet⟩ := ih _ (by
          rw [queued_execute, outputs_execute, List.length_eraseIdx_of_lt hpos, hget,
            List.length_append]
          show 2 * (s.queued.length - 1) + (s.outputs.length + 1) < n
          omega) (s.execute mxe 0 0) rfl
        exact ⟨t, .head (.execute 0 0) harr, hquiet⟩

end PrivateState

/-! ## Calls -/

/-- What an event adds to the position, at once. -/
def PrivateEvent.credit (mxe : Mxe) (p : PrivatePosition) : PrivateEvent → PrivatePosition
  | .depositCollateral _ amount => Circuits.addCollateralV2 (mxe.openShared amount) p
  | .borrow _ amount => Circuits.addBorrowV2 (mxe.openShared amount) p
  | _ => p

/-- The events that queue an addition. -/
def PrivateEvent.Adds : PrivateEvent → Prop
  | .depositCollateral .. | .borrow .. => True
  | _ => False

/-- No update is lost. -/
def PrivateEvent.KeepsUpdates (s : PrivateState) : PrivateEvent → Prop
  | .abort executed i => (s.abort executed i).updates = s.updates
  | _ => True

namespace PrivateState

variable {mxe : Mxe} {p : PrivatePosition} {s s' : PrivateState} {ev : PrivateEvent}

theorem Settles.check {circuit : Circuit} (h : s.Settles mxe p) (hq : s.Queued circuit s')
    (hkind : circuit.kind = .checkHealth) : s'.Settles mxe p := by
  have hupdates : s'.updates = s.updates := by
    simp only [updates, hq.inFlight, hkind, reduceCtorEq, if_false, Nat.add_zero]
  refine ⟨hq.after.trans h.initialized, hupdates ▸ h.single, ?_, ?_, ?_⟩
  · intro hnone
    rw [PrivateState.position, hq.position.nonce, hq.position.encState]
    exact h.idle (hupdates ▸ hnone)
  · intro c hc hne
    rw [hq.queued] at hc
    rw [hq.position.encState]
    rcases List.mem_append.mp hc with hold | hnew
    · exact h.queued c hold hne
    · rw [List.mem_singleton] at hnew
      exact absurd (hnew ▸ hkind) hne
  · rw [hq.outputs]
    exact h.outputs

/-- An addition queued with no other update in flight promises the sum. -/
theorem Settles.add {circuit : Circuit} {q : PrivatePosition} (h : s.Settles mxe p)
    (hidle : s.updates = 0) (hq : s.Queued circuit s')
    (hone : s'.updates = s.updates + 1)
    (hcarries : ∀ fresh, (mxe.run ⟨circuit, s.account.nonce⟩ s.account.encState fresh).Carries
      mxe q) : s'.Settles mxe q := by
  obtain ⟨hqueued, houtputs⟩ := kind_of_updates hidle
  refine ⟨hq.after.trans h.initialized, by omega, fun hnone => by omega, ?_, ?_⟩
  · intro c hc hne
    rw [hq.queued] at hc
    rw [hq.position.encState]
    rcases List.mem_append.mp hc with hold | hnew
    · exact absurd (hqueued c hold) hne
    · rw [List.mem_singleton] at hnew
      exact hnew ▸ hcarries
  · intro out hout hne
    rw [hq.outputs] at hout
    exact absurd (houtputs out hout) hne

/-- A check that is lost promised nothing. -/
theorem Settles.lost (h : s.Settles mxe p) (hlost : s.Lost s') (hsame : s'.updates = s.updates) :
    s'.Settles mxe p where
  initialized := hlost.account ▸ h.initialized
  single := hsame ▸ h.single
  idle hnone := by
    rw [PrivateState.position, hlost.account]
    exact h.idle (hsame ▸ hnone)
  queued c hc := by
    rw [hlost.account]
    exact h.queued c (hlost.queued.subset hc)
  outputs out hout := h.outputs out (hlost.outputs.subset hout)

/-- Every event keeps the promise, up to what it adds itself. -/
theorem Settles.on (h : s.Settles mxe p) (hidle : ev.Adds → s.updates = 0)
    (hkeeps : ev.KeepsUpdates s) (hon : s.on mxe ev = .ok s') :
    s'.Settles mxe (ev.credit mxe p) := by
  cases ev with
  | init owner market =>
      have hq := queued_of_on rfl hon
      have hbefore := hq.before
      rw [h.initialized] at hbefore
      exact absurd hbefore (by decide)
  | depositCollateral k amount =>
      have hq := queued_of_on rfl hon
      have hnone := hidle trivial
      have hp : mxe.decrypt s.account.nonce s.account.encState = p := h.idle hnone
      refine h.add hnone hq ?_ fun fresh => ?_
      · simp only [updates, hq.inFlight, Circuit.kind, reduceCtorEq, if_true, if_false]
        omega
      · rw [← hp]
        exact carries_addCollateral amount _ fresh _
  | borrow k amount =>
      have hq := queued_of_on rfl hon
      have hnone := hidle trivial
      have hp : mxe.decrypt s.account.nonce s.account.encState = p := h.idle hnone
      refine h.add hnone hq ?_ fun fresh => ?_
      · simp only [updates, hq.inFlight, Circuit.kind, reduceCtorEq, if_true, if_false]
        omega
      · rw [← hp]
        exact carries_addBorrow amount _ fresh _
  | check rate cprice bprice ltv => exact h.check (queued_of_on rfl hon) rfl
  | liquidate =>
      obtain ⟨-, rfl⟩ := clearFlag_of_on hon
      exact ⟨h.initialized, h.single, h.idle, h.queued, h.outputs⟩
  | execute i fresh =>
      cases hon
      exact h.execute i fresh
  | deliver i =>
      cases hon
      exact h.deliver i
  | abort executed i =>
      cases hon
      exact h.lost (s.lost i executed) hkeeps

end PrivateState

end VeilVault
