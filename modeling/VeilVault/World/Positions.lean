/-
# VeilVault.World.Positions — whether an initialised position stays.

`init_private_obligation` may be called again until its callback has run, for the case that the
computation expired.  Nothing tells whether it did: called again too early, it leaves two initial
computations in flight, and the second callback empties a position that is in use by then.  The
callback itself tests nothing.  Called only with no initial computation in flight, at most one ever
is, and none from the first callback on.
-/
import VeilVault.Private.Updates
import VeilVault.World.Accounts

namespace VeilVault

open Kit

/-! ## One private obligation -/

namespace PrivateState

variable {mxe : Mxe} {s s' : PrivateState} {ev : PrivateEvent}

/-- The initial computations in flight, and the one that has arrived. -/
def inits (s : PrivateState) : Nat :=
  s.inFlight .initPosition + if s.account.isInitialized then 1 else 0

/-- The event keeps an initialised position, except for an addition that arrives. -/
def Keeps (s : PrivateState) (ev : PrivateEvent) (s' : PrivateState) : Prop :=
  s.account.isInitialized = true → s'.account.isInitialized = true ∧
    (s.SamePosition s' ∨ ∃ i out, ev = .deliver i ∧ s.outputs[i]? = some out ∧
      (out.kind = .addCollateral ∨ out.kind = .addBorrow))

/-- The event does not queue an initial computation beside another one. -/
def Alone (s : PrivateState) (ev : PrivateEvent) : Prop :=
  ev.circuit = some .initPosition → s.inFlight .initPosition = 0

theorem Queued.inits {circuit : Circuit} (h : s.Queued circuit s') (hs : s.inits ≤ 1)
    (halone : circuit = .initPosition → s.inFlight .initPosition = 0) : s'.inits ≤ 1 := by
  have hbefore := h.before
  simp only [PrivateState.inits, h.inFlight, h.after] at hs ⊢
  cases circuit with
  | initPosition =>
      have hnone := halone rfl
      simp only [Circuit.kind, ne_eq, not_true_eq_false, decide_false] at hbefore
      rw [hnone, hbefore]
      decide
  | addCollateral | addBorrow | checkHealth => exact hs

theorem inits_execute (mxe : Mxe) (s : PrivateState) (i : Nat) (fresh : U128) :
    (s.execute mxe i fresh).inits = s.inits := by
  rw [inits, inits, inFlight_execute, account_execute]

/-- The account is initialised by an initial output, and by no other. -/
theorem isInitialized_callback (p : PrivateObligation) (out : Output) :
    (p.callback out).isInitialized = (p.isInitialized || decide (out.kind = .initPosition)) := by
  cases out with
  | initPosition e n => exact (Bool.or_true _).symm
  | addCollateral e n => exact (Bool.or_false _).symm
  | addBorrow e n => exact (Bool.or_false _).symm
  | checkHealth b => exact (Bool.or_false _).symm

/-- An initial output arrives once: it was in flight, so none had arrived before. -/
theorem inits_deliver {i : Nat} {out : Output} (h : s.outputs[i]? = some out)
    (hs : s.inits ≤ 1) : (s.deliver i).inits ≤ 1 ∧
      (out.kind = .initPosition → s.account.isInitialized = false) := by
  have hcount : s.inFlight .initPosition = _ := inFlight_deliver h
  unfold inits at hs ⊢
  rw [account_deliver s i h, isInitialized_callback]
  by_cases hkind : out.kind = .initPosition
  · rw [if_pos hkind] at hcount
    have hnone : s.account.isInitialized = false := by
      by_contra hinit
      rw [if_pos (by simpa using hinit)] at hs
      omega
    rw [hnone, hkind]
    refine ⟨?_, fun _ => rfl⟩
    rw [hnone] at hs
    show _ + 1 ≤ 1
    omega
  · rw [if_neg hkind] at hcount
    rw [decide_eq_false hkind, Bool.or_false]
    exact ⟨by omega, fun hinit => absurd hinit hkind⟩

/-- What one event does, when it queues no initial computation beside another. -/
theorem inits_on (hs : s.inits ≤ 1) (halone : s.Alone ev) (h : s.on mxe ev = .ok s') :
    s'.inits ≤ 1 ∧ s.Keeps ev s' := by
  -- an event queues one circuit, or it is one of the four that queue none
  cases hev : ev.circuit with
  | some circuit =>
      have hq := queued_of_on hev h
      constructor
      · exact hq.inits hs fun hc => halone (hc ▸ hev)
      · intro hinit
        exact ⟨hq.after.trans hinit, .inl hq.position⟩
  | none =>
      cases ev with
      | init | depositCollateral | borrow | check => cases hev
      | liquidate =>
          obtain ⟨-, rfl⟩ := clearFlag_of_on h
          exact ⟨hs, fun hinit => ⟨hinit, .inl ⟨rfl, rfl⟩⟩⟩
      | execute i fresh =>
          cases h
          constructor
          · rw [inits_execute]
            exact hs
          · intro hinit
            unfold execute
            split
            · exact ⟨hinit, .inl ⟨rfl, rfl⟩⟩
            · exact ⟨hinit, .inl (.refl s)⟩
      | abort executed i =>
          cases h
          have hlost := s.lost i executed
          refine ⟨?_, fun hinit => ⟨hlost.account ▸ hinit, .inl ?_⟩⟩
          · have hfewer := hlost.inFlight_le .initPosition
            unfold inits at hs ⊢
            rw [hlost.account]
            omega
          · exact ⟨by rw [hlost.account], by rw [hlost.account]⟩
      | deliver i =>
          cases h
          cases hout : s.outputs[i]? with
          | none =>
              rw [deliver_none s i hout]
              exact ⟨hs, fun hinit => ⟨hinit, .inl (.refl s)⟩⟩
          | some out =>
              obtain ⟨hinits, hfirst⟩ := inits_deliver hout hs
              refine ⟨hinits, ?_⟩
              intro hinit
              unfold deliver
              rw [hout]
              cases out with
              -- an initial position is delivered only while it is in flight, against `hinit`
              | initPosition e n => exact absurd (hfirst rfl) (by rw [hinit]; decide)
              | addCollateral e n => exact ⟨hinit, .inr ⟨i, _, rfl, hout, .inl rfl⟩⟩
              | addBorrow e n => exact ⟨hinit, .inr ⟨i, _, rfl, hout, .inr rfl⟩⟩
              | checkHealth b => exact ⟨hinit, .inl ⟨rfl, rfl⟩⟩

end PrivateState

/-! ## Every private obligation of a run -/

namespace World

variable {mxe : Mxe} {w : World} {ix : Instruction}

/-- No initial computation is queued for an account that has one in flight. -/
def InitsAlone (w : World) (ix : Instruction) : Prop :=
  ∀ p ∈ ix.privateEvent, (w.account p.1).Alone p.2

/-- Initialised positions stay, except that the callbacks of additions write them. -/
def KeepsPositions (mxe : Mxe) (w : World) (ix : Instruction) : Prop :=
  ∀ key s, w.privates key = some s → s.account.isInitialized = true →
    ∃ s', (w.tx mxe ix).privates key = some s' ∧ s'.account.isInitialized = true ∧
      (s.SamePosition s' ∨ ∃ i out, ix = .callback key i ∧ s.outputs[i]? = some out ∧
        (out.kind = .addCollateral ∨ out.kind = .addBorrow))

/-- No account has been initialised, or is about to be, more than once. -/
def InitsOnce (w : World) : Prop := ∀ key, (w.account key).inits ≤ 1

theorem InitsOnce.tx (hw : w.InitsOnce) (halone : InitsAlone w ix) : (w.tx mxe ix).InitsOnce := by
  intro key
  rcases tx_privates mxe w ix key with hsame | ⟨ev, s, hix, hon, hs⟩
  · rw [account, loadOrInit, hsame]
    exact hw key
  · rw [account_eq hs]
    exact (PrivateState.inits_on (hw key) (halone _ hix) hon).1

theorem callback_of_deliver {key : Pubkey} {i : Nat}
    (h : ix.privateEvent = some (key, .deliver i)) : ix = .callback key i := by
  cases ix <;> cases h
  rfl

theorem InitsOnce.keepsPositions (hw : w.InitsOnce) (halone : InitsAlone w ix) :
    KeepsPositions mxe w ix := by
  intro key s hs hinit
  rcases tx_privates mxe w ix key with hsame | ⟨ev, s', hix, hon, hs'⟩
  · exact ⟨s, hsame.trans hs, hinit, .inl (.refl s)⟩
  · have hkeeps := (PrivateState.inits_on (hw key) (halone _ hix) hon).2
    rw [account_eq hs] at hkeeps
    obtain ⟨hinit', hsame | ⟨i, out, rfl, hout, hkind⟩⟩ := hkeeps hinit
    · exact ⟨s', hs', hinit', .inl hsame⟩
    · exact ⟨s', hs', hinit', .inr ⟨i, out, callback_of_deliver hix, hout, hkind⟩⟩

/-- In a run that never queues an initial computation beside another one, a position that has been
initialised stays, and only the callbacks of additions change it. -/
theorem keepsPositions_run (mxe : Mxe) (clock : Clock) (ixs : List Instruction)
    (halone : EachStep (tx mxe) InitsAlone (genesis clock) ixs) :
    EachStep (tx mxe) (KeepsPositions mxe) (genesis clock) ixs := by
  have hstart : (genesis clock).InitsOnce := fun _ => Nat.zero_le 1
  have hkeep : ∀ w ix, InitsOnce w → InitsAlone w ix → InitsOnce (w.tx mxe ix) :=
    fun w ix hw halone => hw.tx halone
  apply eachStep_of_eachStep hkeep _ ixs _ hstart halone
  intro w ix hw halone
  exact hw.keepsPositions halone

instance decidableInitsAlone (w : World) (ix : Instruction) : Decidable (InitsAlone w ix) :=
  inferInstanceAs (Decidable (∀ p ∈ ix.privateEvent, p.2.circuit = some .initPosition →
    (w.account p.1).inFlight .initPosition = 0))

theorem keepsPositions_run_flagged :
    EachStep (tx plainMxe) (KeepsPositions plainMxe) (genesis ⟨0, 0⟩) flaggedRun :=
  keepsPositions_run plainMxe ⟨0, 0⟩ flaggedRun (by decide +kernel)

/-! ## Two initial computations in flight -/

/-- The second user initialises twice; the first callback arrives, a private borrow of 100 goes
through, and the output for the second callback waits. -/
def doubleInitRun : List Instruction :=
  openPool ++ join 1 ++ join 2 ++
    [.initPrivateObligation (.key 2) poolMarket secondPrivate,
      .initPrivateObligation (.key 2) poolMarket secondPrivate,
      .executeComputation secondPrivate 0 1, .executeComputation secondPrivate 0 2,
      .callback secondPrivate 0,
      .privateBorrow { debtOf 2 with privateObligation := secondPrivate } 100 (plainAmount 100),
      .executeComputation secondPrivate 0 3, .callback secondPrivate 1]

def doubleInitWorld : World := doubleInitRun.foldl (tx plainMxe) (genesis ⟨0, 0⟩)

/-- The second initial callback erases the borrow. -/
theorem not_forall_keepsPositions :
    ¬ ∀ (mxe : Mxe) (clock : Clock) (ixs : List Instruction),
        EachStep (tx mxe) (KeepsPositions mxe) (genesis clock) ixs := by
  intro hall
  have hrun := hall plainMxe ⟨0, 0⟩ (doubleInitRun ++ [.callback secondPrivate 0])
  have hlast : KeepsPositions plainMxe doubleInitWorld (.callback secondPrivate 0) := hrun.last
  have hbefore : (doubleInitWorld.privates secondPrivate).any (fun s =>
      s.account.isInitialized ∧ s.position plainMxe = ⟨0, 100⟩ ∧
        s.outputs[0]?.map Output.kind = some .initPosition) = true := by decide +kernel
  have hafter : ((doubleInitWorld.tx plainMxe (.callback secondPrivate 0)).privates
      secondPrivate).all (fun s => s.position plainMxe = ⟨0, 0⟩) = true := by decide +kernel
  obtain ⟨s, hs, hbefore⟩ := (Option.any_eq_true _ _).mp hbefore
  obtain ⟨hinit, hposition, hkind⟩ := of_decide_eq_true hbefore
  obtain ⟨s', hs', -, hsame | ⟨i, out, hix, hout, hadd⟩⟩ := hlast secondPrivate s hs hinit
  · rw [hs'] at hafter
    have hempty : s'.position plainMxe = ⟨0, 0⟩ := of_decide_eq_true hafter
    rw [PrivateState.position, hsame.nonce, hsame.encState] at hempty
    exact absurd (hposition.symm.trans hempty) (by decide)
  · cases hix
    rw [hout] at hkind
    rcases hadd with hadd | hadd
    · exact absurd (hadd.symm.trans (Option.some.inj hkind)) (by decide)
    · exact absurd (hadd.symm.trans (Option.some.inj hkind)) (by decide)

end World

end VeilVault
