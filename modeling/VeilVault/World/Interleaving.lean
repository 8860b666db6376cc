/-
# VeilVault.World.Interleaving — users who do not meet.

Transactions of different users reach the program in an order that nobody controls.  Two of them get
in each other's way only at an account that one writes and the other touches.  Where none of one
user's instructions meets one of another's in this way, the order does not matter: however the two
runs are interleaved, the world they lead to is the one reached by running one after the other, and
each user finds at every account exactly what would be there without the other
(`interleaved_runs`).
-/
import VeilVault.World.Footprints

namespace VeilVault

open Kit

/-- Neither instruction writes what the other touches. -/
def Instruction.Independent (ix ix' : Instruction) : Prop :=
  (∀ l ∈ ix.writes, l ∉ ix'.reads ++ ix'.writes) ∧ ∀ l ∈ ix'.writes, l ∉ ix.reads ++ ix.writes

instance Instruction.decidableIndependent (ix ix' : Instruction) :
    Decidable (ix.Independent ix') :=
  inferInstanceAs (Decidable (_ ∧ _))

namespace World

variable {mxe : Mxe} {w : World} {ix ix' : Instruction} {as bs cs : List Instruction}

theorem tx_comm (mxe : Mxe) (h : ix.Independent ix') (w : World) :
    (w.tx mxe ix).tx mxe ix' = (w.tx mxe ix').tx mxe ix := by
  exact commute_of_footprints (footprint_tx mxe ix) (footprint_tx mxe ix')
    ix.written_subset_touched ix'.written_subset_touched h.1 h.2 w

/-- Instructions that write nothing the others touch do not show there. -/
theorem sameAt_of_independent (hind : ∀ a ∈ as, ∀ b ∈ bs, a.Independent b) {a : Instruction}
    (ha : a ∈ as) {l : Location} (hl : l ∈ a.reads ++ a.writes) (w : World) :
    SameAt l (bs.foldl (tx mxe) w) w := by
  have hkept : ∀ b ∈ bs, l ∉ b.written := fun b hb hl' => (hind a ha b hb).2 l hl' hl
  exact foldl_frame (footprint_tx mxe) hkept w

/-- Runs that do not meet can be interleaved in any way: the world is that of one run after the
other, and what one run touches is as that run alone leaves it. -/
theorem interleaved_runs (mxe : Mxe) (w : World) (as bs cs : List Instruction)
    (h : Interleaving as bs cs) (hind : ∀ a ∈ as, ∀ b ∈ bs, a.Independent b) :
    cs.foldl (tx mxe) w = bs.foldl (tx mxe) (as.foldl (tx mxe) w) ∧
      (∀ a ∈ as, ∀ l ∈ a.reads ++ a.writes,
        SameAt l (cs.foldl (tx mxe) w) (as.foldl (tx mxe) w)) ∧
      ∀ b ∈ bs, ∀ l ∈ b.reads ++ b.writes,
        SameAt l (cs.foldl (tx mxe) w) (bs.foldl (tx mxe) w) := by
  have hind' : ∀ b ∈ bs, ∀ a ∈ as, b.Independent a := fun b hb a ha => (hind a ha b hb).symm
  have hserial := foldl_interleaving h (fun a ha b hb v => tx_comm mxe (hind a ha b hb) v) w
  have hserial' :=
    foldl_interleaving h.symm (fun b hb a ha v => tx_comm mxe (hind' b hb a ha) v) w
  refine ⟨hserial, fun a ha l hl => ?_, fun b hb l hl => ?_⟩
  · rw [hserial]
    exact sameAt_of_independent hind ha hl _
  · rw [hserial']
    exact sameAt_of_independent hind' hb hl _

/-- The first user takes a loan. -/
def borrowing : List Instruction := [refreshUser 1, .borrow (debtOf 1) 1000]

/-- A second user arrives. -/
def arriving : List Instruction :=
  [.openTokenAccount (.key 102) usd (.key 2),
    .initObligation (.key 2) poolMarket (.obligation poolMarket (.key 2)),
    .initPrivateObligation (.key 2) poolMarket (.privateObligation poolMarket (.key 2))]

theorem interleaved_runs_joined :
    [arriving[0], refreshUser 1, arriving[1], .borrow (debtOf 1) 1000, arriving[2]].foldl
        (tx plainMxe) joinedWorld =
      arriving.foldl (tx plainMxe) (borrowing.foldl (tx plainMxe) joinedWorld) := by
  have h : Interleaving borrowing arriving
      [arriving[0], refreshUser 1, arriving[1], .borrow (debtOf 1) 1000, arriving[2]] :=
    .right (.left (.right (.left (.right .nil))))
  exact (interleaved_runs plainMxe joinedWorld borrowing arriving _ h (by decide)).1

end World

end VeilVault
