/-
# VeilVault.World.FreshChecks — which health check a private liquidation rests on.

The flag records that some check came back unhealthy, not which one.  To say which, runs are
observed: `Observed` keeps, beside the world, the instructions so far and for each private
obligation a log of instruction numbers, namely when each computation in flight was queued, whose
callback set the flag, and when the position was last liquidated.  The log is written and never
read (`world_foldl`).

Clearing the flag does not recall the checks that are still in flight, so one queued before a
liquidation can set the flag again after it.  When a position is liquidated with no check in flight,
whatever sets the flag next was queued later.
-/
import Mathlib.Data.List.Forall2
import VeilVault.World.Accounts

namespace VeilVault

open Kit World

/-! ## Logs -/

/-- Instruction numbers noted about one private obligation. -/
structure PrivateLog where
  /-- When each queued computation was queued. -/
  queued : List Nat
  /-- When the computation behind each waiting output was queued. -/
  outputs : List Nat
  /-- When the check whose callback set the flag was queued. -/
  flaggedBy : Option Nat
  liquidatedAt : Option Nat

namespace PrivateLog

def empty : PrivateLog := ⟨[], [], none, none⟩

/-- Note what instruction number `now` does to `s`. -/
def record (log : PrivateLog) (now : Nat) (s : PrivateState) : PrivateEvent → PrivateLog
  | .init .. | .depositCollateral .. | .borrow .. | .check .. =>
      { log with queued := log.queued ++ [now] }
  | .liquidate => { log with liquidatedAt := some now }
  | .execute i _ =>
      { log with
        queued := log.queued.eraseIdx i
        outputs := log.outputs ++ log.queued[i]?.toList }
  | .deliver i =>
      { log with
        outputs := log.outputs.eraseIdx i
        flaggedBy :=
          if s.outputs[i]? = some (.checkHealth false) then log.outputs[i]? else log.flaggedBy }
  | .abort true i => { log with outputs := log.outputs.eraseIdx i }
  | .abort false i => { log with queued := log.queued.eraseIdx i }

end PrivateLog

/-- A world with what has been noted on the way to it. -/
structure Observed where
  world : World
  past : List Instruction
  logs : Pubkey → PrivateLog

namespace Observed

def genesis (clock : Clock) : Observed := ⟨.genesis clock, [], fun _ => .empty⟩

/-- The logs after a successful instruction. -/
def noted (b : Observed) (ix : Instruction) : Pubkey → PrivateLog :=
  match ix.privateEvent with
  | none => b.logs
  | some (key, ev) => fun k =>
      if k = key then (b.logs k).record b.past.length (b.world.account k) ev else b.logs k

/-- A transaction, observed. -/
def tx (mxe : Mxe) (b : Observed) (ix : Instruction) : Observed where
  world := b.world.tx mxe ix
  past := b.past ++ [ix]
  logs := if (b.world.exec mxe ix).isOk then b.noted ix else b.logs

/-- Observing changes nothing. -/
theorem world_foldl (mxe : Mxe) (ixs : List Instruction) (b : Observed) :
    (ixs.foldl (tx mxe) b).world = ixs.foldl (World.tx mxe) b.world := by
  induction ixs generalizing b with
  | nil => rfl
  | cons ix ixs ih => exact ih _

/-- Instruction number `q` queued a circuit of this kind for `key`. -/
def QueuedAt (past : List Instruction) (key : Pubkey) (kind : CircuitKind) (q : Nat) : Prop :=
  ∃ ix ev circuit, past[q]? = some ix ∧ ix.privateEvent = some (key, ev) ∧
    ev.circuit = some circuit ∧ circuit.kind = kind

/-- A private liquidation of a position that was liquidated before rests on a check that was queued
since. -/
def FreshCheck (mxe : Mxe) (b : Observed) (ix : Instruction) : Prop :=
  ∀ a repayAmount, ix = .executePrivateLiquidation a repayAmount →
    (b.world.exec mxe ix).isOk = true →
    ∀ t, (b.logs a.privateObligation).liquidatedAt = some t →
      ∃ q, (b.logs a.privateObligation).flaggedBy = some q ∧ t < q ∧
        QueuedAt b.past a.privateObligation .checkHealth q

/-! ## Lists side by side -/

section Beside

variable {α β : Type} {R : α → β → Prop} {l : List α} {m : List β} {i : Nat}

theorem forall₂_getElem? {a : α} (h : List.Forall₂ R l m) (ha : l[i]? = some a) :
    ∃ b, m[i]? = some b ∧ R a b := by
  obtain ⟨hi, rfl⟩ := List.getElem?_eq_some_iff.mp ha
  have hi' : i < m.length := h.length_eq ▸ hi
  exact ⟨m[i], List.getElem?_eq_getElem hi', h.get hi hi'⟩

theorem forall₂_eraseIdx (h : List.Forall₂ R l m) (i : Nat) :
    List.Forall₂ R (l.eraseIdx i) (m.eraseIdx i) := by
  rw [List.eraseIdx_eq_take_drop_succ, List.eraseIdx_eq_take_drop_succ]
  exact List.rel_append (List.forall₂_take i h) (List.forall₂_drop (i + 1) h)

theorem forall₂_snoc {a : α} {b : β} (h : List.Forall₂ R l m) (hab : R a b) :
    List.Forall₂ R (l ++ [a]) (m ++ [b]) :=
  List.rel_append h (.cons hab .nil)

end Beside

/-! ## What the log of one private obligation says -/

section Log

variable {mxe : Mxe} {past : List Instruction} {key : Pubkey} {log : PrivateLog}
  {s s' : PrivateState} {ev : PrivateEvent} {ix : Instruction} {kind : CircuitKind} {q : Nat}

theorem QueuedAt.snoc (h : QueuedAt past key kind q) (ix : Instruction) :
    QueuedAt (past ++ [ix]) key kind q := by
  obtain ⟨jx, ev, circuit, hq, hrest⟩ := h
  have hlt : q < past.length := (List.getElem?_eq_some_iff.mp hq).1
  exact ⟨jx, ev, circuit, (List.getElem?_append_left hlt).trans hq, hrest⟩

/-- Number `q` is later than the last liquidation. -/
def Since (liquidatedAt : Option Nat) (q : Nat) : Prop := ∀ t, liquidatedAt = some t → t < q

/-- A computation of this kind was queued by instruction `q`, and after the last liquidation if it
is a check. -/
structure Dated (past : List Instruction) (key : Pubkey) (liquidatedAt : Option Nat)
    (kind : CircuitKind) (q : Nat) : Prop where
  queued : QueuedAt past key kind q
  since : kind = .checkHealth → Since liquidatedAt q

/-- The log dates everything in flight, and the check behind the flag. -/
structure Fits (past : List Instruction) (key : Pubkey) (log : PrivateLog) (s : PrivateState) :
    Prop where
  queued : List.Forall₂ (fun c q => Dated past key log.liquidatedAt c.circuit.kind q)
    s.queued log.queued
  outputs : List.Forall₂ (fun out q => Dated past key log.liquidatedAt out.kind q)
    s.outputs log.outputs
  flag : s.account.isLiquidatable = true →
    ∃ q, log.flaggedBy = some q ∧ Dated past key log.liquidatedAt .checkHealth q
  past : Since log.liquidatedAt past.length

/-- An instruction that does not touch the private obligation. -/
theorem Fits.snoc (h : Fits past key log s) (ix : Instruction) : Fits (past ++ [ix]) key log s where
  queued := h.queued.imp fun _ _ hd => ⟨hd.queued.snoc ix, hd.since⟩
  outputs := h.outputs.imp fun _ _ hd => ⟨hd.queued.snoc ix, hd.since⟩
  flag hflag := by
    obtain ⟨q, hq, hd⟩ := h.flag hflag
    exact ⟨q, hq, hd.queued.snoc ix, hd.since⟩
  past t ht := by
    rw [List.length_append]
    exact Nat.lt_add_right _ (h.past t ht)

/-- A circuit is queued, by this instruction. -/
theorem Fits.queue {circuit : Circuit} (h : Fits past key log s) (hq : s.Queued circuit s')
    (hix : ix.privateEvent = some (key, ev)) (hev : ev.circuit = some circuit) :
    Fits (past ++ [ix]) key { log with queued := log.queued ++ [past.length] } s' := by
  have hsame := h.snoc ix
  have hnow : Dated (past ++ [ix]) key log.liquidatedAt circuit.kind past.length :=
    ⟨⟨ix, ev, circuit, List.getElem?_concat_length, hix, hev, rfl⟩, fun _ => h.past⟩
  refine ⟨?_, ?_, fun hflag => hsame.flag (hq.flag hflag), hsame.past⟩
  · rw [hq.queued]
    exact forall₂_snoc hsame.queued hnow
  · rw [hq.outputs]
    exact hsame.outputs

/-- An output has the date of its computation. -/
theorem Fits.execute (h : Fits past key log s) (mxe : Mxe) (i : Nat) (fresh : U128) :
    Fits past key
      { log with
        queued := log.queued.eraseIdx i
        outputs := log.outputs ++ log.queued[i]?.toList } (s.execute mxe i fresh) := by
  refine ⟨?_, ?_, ?_, h.past⟩
  · rw [PrivateState.queued_execute]
    exact forall₂_eraseIdx h.queued i
  · rw [PrivateState.outputs_execute]
    apply List.rel_append h.outputs
    cases hc : s.queued[i]? with
    | none =>
        rw [List.getElem?_eq_none_iff, h.queued.length_eq] at hc
        rw [List.getElem?_eq_none hc]
        exact .nil
    | some c =>
        obtain ⟨q, hq, hdated⟩ := forall₂_getElem? h.queued hc
        rw [hq]
        refine .cons ?_ .nil
        rw [Mxe.kind_run]
        exact hdated
  · rw [PrivateState.account_execute]
    exact h.flag

/-- A flag that a callback has just set has the date of its check. -/
theorem Fits.deliver (h : Fits past key log s) (i : Nat) :
    Fits past key
      { log with
        outputs := log.outputs.eraseIdx i
        flaggedBy :=
          if s.outputs[i]? = some (.checkHealth false) then log.outputs[i]? else log.flaggedBy }
      (s.deliver i) := by
  refine ⟨?_, ?_, ?_, h.past⟩
  · rw [PrivateState.queued_deliver]
    exact h.queued
  · rw [PrivateState.outputs_deliver]
    exact forall₂_eraseIdx h.outputs i
  · intro hflag
    show ∃ q, ite (s.outputs[i]? = some (.checkHealth false)) _ _ = some q ∧ _
    unfold PrivateState.deliver at hflag
    cases hout : s.outputs[i]? with
    | none =>
        rw [hout] at hflag
        exact h.flag hflag
    | some out =>
        rw [hout] at hflag
        by_cases hbad : out = .checkHealth false
        · subst hbad
          obtain ⟨q, hq, hdated⟩ := forall₂_getElem? h.outputs hout
          exact ⟨q, (if_pos rfl).trans hq, hdated⟩
        · -- no other callback sets the flag
          have hbefore : s.account.isLiquidatable = true := by
            cases out with
            | checkHealth b =>
                cases b with
                | false => exact absurd rfl hbad
                | true => cases hflag
            | initPosition e n => exact hflag
            | addCollateral e n => exact hflag
            | addBorrow e n => exact hflag
          obtain ⟨q, hq, hdated⟩ := h.flag hbefore
          exact ⟨q, (if_neg fun hcon => hbad (Option.some.inj hcon)).trans hq, hdated⟩

/-- What is lost is struck off the log. -/
theorem Fits.abort (h : Fits past key log s) (executed : Bool) (i : Nat) :
    Fits past key (log.record past.length s (.abort executed i)) (s.abort executed i) := by
  cases executed with
  | true => exact ⟨h.queued, forall₂_eraseIdx h.outputs i, h.flag, h.past⟩
  | false => exact ⟨forall₂_eraseIdx h.queued i, h.outputs, h.flag, h.past⟩

/-- A liquidation with no check in flight: nothing that is in flight can set the flag. -/
theorem Fits.liquidate (h : Fits past key log s) (ix : Instruction)
    (hnone : s.inFlight .checkHealth = 0) :
    Fits (past ++ [ix]) key { log with liquidatedAt := some past.length } s.clearFlag := by
  obtain ⟨hqueued, houtputs⟩ := Nat.add_eq_zero_iff.mp hnone
  -- no computation and no output in the lists is a check
  rw [List.countP_eq_zero] at hqueued houtputs
  refine ⟨?_, ?_, fun hflag => (by cases hflag), ?_⟩
  · apply ((List.forall₂_and_left _ _).mpr ⟨hqueued, h.queued⟩).imp
    rintro c q ⟨hkind, hd⟩
    exact ⟨hd.queued.snoc ix, fun hcheck => absurd hcheck (by simpa using hkind)⟩
  · apply ((List.forall₂_and_left _ _).mpr ⟨houtputs, h.outputs⟩).imp
    rintro out q ⟨hkind, hd⟩
    exact ⟨hd.queued.snoc ix, fun hcheck => absurd hcheck (by simpa using hkind)⟩
  · rintro t ⟨⟩
    rw [List.length_append]
    exact Nat.lt_add_one _

/-- One event, when liquidations happen with no check in flight. -/
theorem Fits.on (h : Fits past key log s) (hix : ix.privateEvent = some (key, ev))
    (hon : s.on mxe ev = .ok s') (hsettled : ev = .liquidate → s.inFlight .checkHealth = 0) :
    Fits (past ++ [ix]) key (log.record past.length s ev) s' := by
  cases ev with
  | init | depositCollateral | borrow | check =>
      exact h.queue (PrivateState.queued_of_on rfl hon) hix rfl
  | liquidate =>
      obtain ⟨-, rfl⟩ := PrivateState.clearFlag_of_on hon
      exact h.liquidate ix (hsettled rfl)
  | execute i fresh =>
      cases hon
      exact (h.execute mxe i fresh).snoc ix
  | deliver i =>
      cases hon
      exact (h.deliver i).snoc ix
  | abort executed i =>
      cases hon
      have hnow := (h.abort executed i).snoc ix
      cases executed <;> exact hnow

end Log

/-! ## Runs -/

variable {mxe : Mxe} {b : Observed} {ix : Instruction}

/-- A position is liquidated only when no check of it is in flight. -/
def LiquidatesSettled (b : Observed) (ix : Instruction) : Prop :=
  ∀ p ∈ ix.privateEvent, p.2 = .liquidate → (b.world.account p.1).inFlight .checkHealth = 0

/-- The logs are true of the world. -/
def Faithful (b : Observed) : Prop :=
  ∀ key, Fits b.past key (b.logs key) (b.world.account key)

theorem Faithful.tx (hb : b.Faithful) (hsettled : LiquidatesSettled b ix) :
    (b.tx mxe ix).Faithful := by
  intro key
  cases h : b.world.exec mxe ix with
  | error e =>
      have hsame : b.world.tx mxe ix = b.world := by rw [World.tx, attemptStep, h]
      simp only [Observed.tx, hsame, h]
      exact (hb key).snoc ix
  | ok w' =>
      have hw' : b.world.tx mxe ix = w' := attemptStep_ok h
      simp only [Observed.tx, hw', h]
      show Fits _ key (b.noted ix key) _
      unfold noted
      cases hix : ix.privateEvent with
      | none =>
          have hsame : w'.account key = b.world.account key := by
            rw [World.account, World.exec_event_none h hix]
            rfl
          rw [hsame]
          exact (hb key).snoc ix
      | some p =>
          obtain ⟨k, ev⟩ := p
          obtain ⟨s, hs, hprivates⟩ := World.exec_event h hix
          -- the log of every other private obligation only grows older
          by_cases hk : key = k
          · subst hk
            have hnew : w'.account key = s := World.account_eq (by rw [hprivates]; exact if_pos rfl)
            rw [hnew]
            show Fits _ key (ite (key = key) _ _) s
            rw [if_pos rfl]
            exact (hb key).on hix hs (hsettled _ hix)
          · have hsame : w'.account key = b.world.account key := by
              rw [World.account, loadOrInit, hprivates, store, if_neg hk]
              rfl
            rw [hsame]
            show Fits _ key (ite (key = k) _ _) _
            rw [if_neg hk]
            exact (hb key).snoc ix

/-- The flag was set, and what set it has a date. -/
theorem Faithful.freshCheck (hb : b.Faithful) : FreshCheck mxe b ix := by
  rintro a repayAmount rfl hok t ht
  obtain ⟨w', h⟩ := exists_ok_of_isOk hok
  obtain ⟨s, hs, -⟩ := World.exec_event h rfl
  obtain ⟨hflag, -⟩ := PrivateState.clearFlag_of_on hs
  obtain ⟨q, hq, hdated⟩ := (hb a.privateObligation).flag hflag
  exact ⟨q, hq, hdated.since rfl t ht, hdated.queued⟩

/-- When positions are liquidated only with no check of them in flight, each private liquidation
after the first rests on a check that was queued since the one before. -/
theorem freshCheck_run (mxe : Mxe) (clock : Clock) (ixs : List Instruction)
    (hsettled : EachStep (tx mxe) LiquidatesSettled (genesis clock) ixs) :
    EachStep (tx mxe) (FreshCheck mxe) (genesis clock) ixs := by
  have hstart : (genesis clock).Faithful :=
    fun _ => ⟨.nil, .nil, fun hflag => (by cases hflag), fun _ ht => (by cases ht)⟩
  have hkeep : ∀ b ix, Faithful b → LiquidatesSettled b ix → Faithful (b.tx mxe ix) :=
    fun _ _ hb hsettled => hb.tx hsettled
  apply eachStep_of_eachStep hkeep _ ixs _ hstart hsettled
  intro b ix hb _
  exact hb.freshCheck

instance decidableLiquidatesSettled (b : Observed) (ix : Instruction) :
    Decidable (LiquidatesSettled b ix) :=
  inferInstanceAs (Decidable (∀ p ∈ ix.privateEvent, p.2 = .liquidate →
    (b.world.account p.1).inFlight .checkHealth = 0))

/-- The second user is liquidated, checked again and liquidated again. -/
def recheckedRun : List Instruction :=
  flaggedRun ++
    [.executePrivateLiquidation (seizeFrom 2) 10,
      .privateCheckLiquidatable (.key 3) poolMarket (.key 2) secondPrivate 10000 0 100 10000,
      .executeComputation secondPrivate 0 4, .callback secondPrivate 0,
      .executePrivateLiquidation (seizeFrom 2) 10]

theorem freshCheck_run_rechecked :
    EachStep (tx plainMxe) (FreshCheck plainMxe) (genesis ⟨0, 0⟩) recheckedRun :=
  freshCheck_run plainMxe ⟨0, 0⟩ recheckedRun (by decide +kernel)

/-! ## A check that outlives a liquidation -/

/-- Two checks are queued; the flag of the first is used, and the second one arrives after that. -/
def staleRun : List Instruction :=
  flaggedRun ++
    [.privateCheckLiquidatable (.key 3) poolMarket (.key 2) secondPrivate 10000 0 100 10000,
      .executePrivateLiquidation (seizeFrom 2) 10,
      .executeComputation secondPrivate 0 4, .callback secondPrivate 0]

def staleObserved : Observed := staleRun.foldl (tx plainMxe) (genesis ⟨0, 0⟩)

theorem not_forall_freshCheck :
    ¬ ∀ (mxe : Mxe) (clock : Clock) (ixs : List Instruction),
        EachStep (tx mxe) (FreshCheck mxe) (genesis clock) ixs := by
  intro hall
  let liquidation := Instruction.executePrivateLiquidation (seizeFrom 2) 10
  have hrun := hall plainMxe ⟨0, 0⟩ (staleRun ++ [liquidation])
  have hlast : FreshCheck plainMxe staleObserved liquidation := hrun.last
  have hok : (staleObserved.world.exec plainMxe liquidation).isOk = true := by decide +kernel
  -- the check behind the flag was queued one instruction before the first liquidation
  have hliquidated : (staleObserved.logs (seizeFrom 2).privateObligation).liquidatedAt =
      some 33 := by decide +kernel
  have hflagged : (staleObserved.logs (seizeFrom 2).privateObligation).flaggedBy = some 32 := by
    decide +kernel
  obtain ⟨q, hq, hlt, -⟩ := hlast _ _ rfl hok 33 hliquidated
  rw [hflagged] at hq
  cases hq
  exact absurd hlt (by decide)

end Observed

end VeilVault
