/-
# VeilVault.World.OneAsset — one counter, how many assets?

The private obligation records a reserve for each side, and the circuits add amounts to one
ciphertext for each side, whatever reserve they come from.  `Audited` keeps the reserves of the
additions that were accepted.  Nothing compares the reserve of a later addition with the recorded
one, so a side counts one asset exactly when its additions happen to name one reserve.
-/
import VeilVault.Private.Sides
import VeilVault.World.Accounts

namespace VeilVault

open Kit

variable {mxe : Mxe} {x : Pubkey} {side : Side} {w w' : World} {ix : Instruction}

/-- The reserve whose units an instruction adds on a side of the private obligation at `x`. -/
def Instruction.addsAt (x : Pubkey) (side : Side) (ix : Instruction) : Option Pubkey := do
  let (key, ev) ← ix.privateEvent
  if key = x then ev.addsOn side else none

namespace World

/-- An accepted addition on a side whose reserve is recorded is for that reserve. -/
def SameReserve (mxe : Mxe) (x : Pubkey) (side : Side) (w : World) (ix : Instruction) : Prop :=
  (w.exec mxe ix).isOk = true → ∀ k ∈ ix.addsAt x side,
    (w.account x).account.reserveOn side ≠ default → k = (w.account x).account.reserveOn side

/-- Only the two instructions that add name a reserve. -/
theorem addsAt_eq_some {k : Pubkey} (h : ix.addsAt x side = some k) :
    (∃ a n e, ix = .privateDepositCollateral a n e ∧ k = a.reserve) ∨
      ∃ a n e, ix = .privateBorrow a n e ∧ k = a.reserve := by
  simp only [Instruction.addsAt, Option.bind_eq_bind, Option.bind_eq_some_iff,
    Option.ite_none_right_eq_some, Prod.exists] at h
  obtain ⟨y, ev, hix, -, hadds⟩ := h
  cases ix with
  | privateDepositCollateral a n e =>
      cases hix
      cases side <;> cases hadds
      exact .inl ⟨a, n, e, rfl, rfl⟩
  | privateBorrow a n e =>
      cases hix
      cases side <;> cases hadds
      exact .inr ⟨a, n, e, rfl, rfl⟩
  | _ =>
      cases hix <;> cases side <;> cases hadds

/-- Reserves live at derived addresses, and none of those is the default key. -/
theorem addsAt_ne_default (h : w.exec mxe ix = .ok w') : ∀ k ∈ ix.addsAt x side, k ≠ default := by
  intro k hk
  rcases addsAt_eq_some hk with ⟨a, n, e, rfl, rfl⟩ | ⟨a, n, e, rfl, rfl⟩
  · simp only [exec, World.privateDepositCollateral, bind_eq_ok, Prod.exists] at h
    obtain ⟨_, _, _, hcheck, -⟩ := h
    exact Pubkey.ne_default (CollateralAccounts.check_ok hcheck).2.1
  · simp only [exec, World.privateBorrow, bind_eq_ok, Prod.exists] at h
    obtain ⟨_, _, _, hcheck, -⟩ := h
    exact Pubkey.ne_default (DebtAccounts.check_ok hcheck).2.1

end World

/-! ## Histories -/

/-- A world, and the reserves that were added so far on one side of one private obligation. -/
structure Audited where
  world : World
  added : List Pubkey

namespace Audited

def genesis (clock : Clock) : Audited := ⟨.genesis clock, []⟩

/-- An instruction that fails adds nothing. -/
def tx (mxe : Mxe) (x : Pubkey) (side : Side) (t : Audited) (ix : Instruction) : Audited where
  world := t.world.tx mxe ix
  added := if (t.world.exec mxe ix).isOk then t.added ++ (ix.addsAt x side).toList else t.added

/-- Everything that was added on the side is of the recorded reserve. -/
def OneAsset (x : Pubkey) (side : Side) (t : Audited) : Prop :=
  ∀ k ∈ t.added, k = (t.world.account x).account.reserveOn side

/-- All additions name one reserve. -/
def Uniform (t : Audited) : Prop := ∀ k ∈ t.added, ∀ k' ∈ t.added, k = k'

variable {t : Audited} {ixs : List Instruction}

theorem added_subset_tx : t.added ⊆ (t.tx mxe x side ix).added := by
  intro k hk
  show k ∈ if _ then _ else _
  split
  · exact List.mem_append_left _ hk
  · exact hk

theorem added_subset_foldl (ixs : List Instruction) :
    ∀ t : Audited, t.added ⊆ (ixs.foldl (tx mxe x side) t).added := by
  induction ixs with
  | nil => exact fun t => List.Subset.refl _
  | cons ix ixs ih => exact fun t => List.Subset.trans added_subset_tx (ih _)

/-- The record of the account follows every transaction. -/
theorem records_tx (h : (t.world.account x).Records side t.added) :
    ((t.tx mxe x side ix).world.account x).Records side (t.tx mxe x side ix).added := by
  cases hex : t.world.exec mxe ix with
  | error e =>
      have hworld : (t.tx mxe x side ix).world = t.world := by
        rw [tx, World.tx, attemptStep, hex]
      have hadded : (t.tx mxe x side ix).added = t.added := by
        rw [tx, hex]
        rfl
      rw [hworld, hadded]
      exact h
  | ok w' =>
      have hworld : (t.tx mxe x side ix).world = w' := attemptStep_ok hex
      have hadded : (t.tx mxe x side ix).added = t.added ++ (ix.addsAt x side).toList := by
        rw [tx, hex]
        rfl
      rw [hworld, hadded]
      have hreserve : ∀ k ∈ ix.addsAt x side, k ≠ default := World.addsAt_ne_default hex
      cases hix : ix.privateEvent with
      | none =>
          rw [World.account, World.exec_event_none hex hix, Instruction.addsAt, hix]
          exact (List.append_nil t.added).symm ▸ h
      | some p =>
          obtain ⟨key, ev⟩ := p
          obtain ⟨s, hs, hprivates⟩ := World.exec_event hex hix
          -- only an event on this account can write its reserves
          by_cases hkey : key = x
          · subst hkey
            have hadds : ix.addsAt key side = ev.addsOn side := by
              rw [Instruction.addsAt, hix]
              exact if_pos rfl
            have hs' : w'.account key = s := World.account_eq (by rw [hprivates, store_self])
            rw [hadds] at hreserve ⊢
            rw [hs']
            exact h.on hs hreserve
          · have hadds : ix.addsAt x side = none := by
              rw [Instruction.addsAt, hix]
              exact if_neg hkey
            have hs' : w'.account x = t.world.account x := by
              rw [World.account, World.account, loadOrInit, hprivates,
                store_of_ne _ _ (Ne.symm hkey)]
              rfl
            rw [hadds, hs', Option.toList_none, List.append_nil]
            exact h

/-! ## One reserve a side -/

theorem Uniform.of_subset {t' : Audited} (h : t'.Uniform) (hsub : t.added ⊆ t'.added) :
    t.Uniform := fun k hk k' hk' => h k (hsub hk) k' (hsub hk')

/-- The recorded reserve is the first, so it is all of them when they are the same. -/
theorem Uniform.oneAsset (hu : t.Uniform) (h : (t.world.account x).Records side t.added) :
    OneAsset x side t := by
  intro k hk
  rw [h.first]
  cases hadded : t.added with
  | nil =>
      rw [hadded] at hk
      exact absurd hk List.not_mem_nil
  | cons c cs =>
      have hc : c ∈ t.added := hadded ▸ List.mem_cons_self
      exact hu k hk c hc

theorem Uniform.sameReserve (hu : (t.tx mxe x side ix).Uniform)
    (h : (t.world.account x).Records side t.added) : t.world.SameReserve mxe x side ix := by
  intro hok k hk hset
  rw [h.first] at hset ⊢
  have hadded : (t.tx mxe x side ix).added = t.added ++ [k] := by
    rw [tx, if_pos hok, Option.mem_def.mp hk]
    rfl
  cases hold : t.added with
  | nil =>
      rw [hold] at hset
      exact absurd rfl hset
  | cons c cs =>
      apply hu
      · rw [hadded]
        exact List.mem_append_right _ (List.mem_singleton_self k)
      · rw [hadded, hold]
        exact List.mem_append_left _ List.mem_cons_self

/-- From any recorded state: a run that adds one reserve only keeps to the recorded one. -/
theorem run_of_uniform (ixs : List Instruction) :
    ∀ t : Audited, (t.world.account x).Records side t.added →
      (ixs.foldl (tx mxe x side) t).Uniform →
      EachStep (World.tx mxe) (World.SameReserve mxe x side) t.world ixs ∧
        Always (tx mxe x side) (OneAsset x side) t ixs := by
  induction ixs with
  | nil => exact fun t h hu => ⟨trivial, hu.oneAsset h⟩
  | cons ix ixs ih =>
      intro t h hu
      rw [List.foldl_cons] at hu
      -- the additions so far are among those of the whole run
      have hnext : (t.tx mxe x side ix).Uniform := hu.of_subset (added_subset_foldl ixs _)
      obtain ⟨hsteps, halways⟩ := ih (t.tx mxe x side ix) (records_tx h) hu
      refine ⟨⟨hnext.sameReserve h, hsteps⟩, ?_, halways⟩
      exact (hnext.of_subset added_subset_tx).oneAsset h

/-- Along a run, every accepted addition keeps to the recorded reserve, and everything added on the
side is of it, exactly when the accepted additions all name one reserve. -/
theorem oneAsset_iff (mxe : Mxe) (clock : Clock) (x : Pubkey) (side : Side)
    (ixs : List Instruction) :
    (EachStep (World.tx mxe) (World.SameReserve mxe x side) (World.genesis clock) ixs ∧
      Always (tx mxe x side) (OneAsset x side) (genesis clock) ixs) ↔
    (ixs.foldl (tx mxe x side) (genesis clock)).Uniform := by
  constructor
  · rintro ⟨-, halways⟩ k hk k' hk'
    have hlast : OneAsset x side (ixs.foldl (tx mxe x side) (genesis clock)) := halways.foldl
    rw [hlast k hk, hlast k' hk']
  · have hstart : ((genesis clock).world.account x).Records side (genesis clock).added := by
      apply PrivateState.records_nil
      cases side <;> rfl
    exact run_of_uniform ixs (genesis clock) hstart

end Audited

namespace World

/-! ## Two reserves -/

/-- The second user opens a private position and deposits dollars. -/
def dollarsFirst : List Instruction :=
  openPool ++ join 1 ++ join 2 ++ openSecond ++
    [.initPrivateObligation (.key 2) poolMarket secondPrivate,
      .executeComputation secondPrivate 0 1, .callback secondPrivate 0,
      .privateDepositCollateral { collateralOf 2 with privateObligation := secondPrivate } 100
        (plainAmount 100)]

/-- Then euros. -/
def eurosSecond : Instruction :=
  .privateDepositCollateral
    { depositor := .key 2
      lendingMarket := poolMarket
      reserve := eurReserve
      reserveMint := eur
      collateralMint := .collateralMint eurReserve
      userCollateralAccount := .key 402
      collateralSupplyVault := .collateralSupply eurReserve
      obligation := .obligation poolMarket (.key 2)
      privateObligation := secondPrivate } 100 (plainAmount 100)

def dollarWorld : World := dollarsFirst.foldl (tx plainMxe) (genesis ⟨0, 0⟩)

/-- The deposit of euros is accepted into the counter of dollars. -/
theorem not_forall_sameReserve :
    ¬ ∀ (mxe : Mxe) (clock : Clock) (x : Pubkey) (side : Side) (ixs : List Instruction),
        EachStep (tx mxe) (SameReserve mxe x side) (genesis clock) ixs ∧
          Always (Audited.tx mxe x side) (Audited.OneAsset x side) (.genesis clock) ixs := by
  intro hall
  obtain ⟨hrun, -⟩ :=
    hall plainMxe ⟨0, 0⟩ secondPrivate .collateral (dollarsFirst ++ [eurosSecond])
  have hlast : SameReserve plainMxe secondPrivate .collateral dollarWorld eurosSecond := hrun.last
  have hok : (dollarWorld.exec plainMxe eurosSecond).isOk = true := by decide +kernel
  have hset : (dollarWorld.account secondPrivate).account.collateralReserve = usdReserve := by
    decide +kernel
  have hsame := hlast hok eurReserve rfl (by
    show (dollarWorld.account secondPrivate).account.collateralReserve ≠ default
    rw [hset]
    decide)
  have heur : eurReserve = (dollarWorld.account secondPrivate).account.collateralReserve := hsame
  rw [hset] at heur
  exact absurd heur (by decide)

end World

end VeilVault
