/-
# VeilVault.World.PriceReadings — where the prices of a decision come from, and how long ago.

The condition under which decisions are fresh is about three kinds of steps and the time between
them: `refresh_reserve` reads a price of some age, `refresh_obligation` copies values at the last
readings, and borrows and liquidations follow.  `Monitored` keeps, beside a dated world, the last
reading of every reserve and the reading behind every cached value.  Stored publication times are
not assumed to be anything: that they are those of the readings, and at most `maxAgeSeconds` before
them, is an invariant (`Monitored.Accounted`), from the one check of `get_pyth_price` and from all
other instructions leaving prices alone.
-/
import VeilVault.Ledger.Prices
import VeilVault.World.Changes
import VeilVault.World.FreshPrices

namespace VeilVault

open Kit Kit.Outcome World

/-! ## Who writes a price -/

namespace Reserve

variable {r r₁ r' : Reserve}

/-- The same price, published at the same time. -/
structure SamePrice (r r' : Reserve) : Prop where
  price : r'.liquidity.marketPriceSf = r.liquidity.marketPriceSf
  published : r'.liquidity.priceLastUpdatedTs = r.liquidity.priceLastUpdatedTs

theorem samePrice_of_liquidity (h : r'.liquidity = r.liquidity) : SamePrice r r' := by
  constructor <;> rw [h]

theorem samePrice_accrueInterest {s : U64} (h : r.accrueInterest s = .ok r') : SamePrice r r' := by
  rcases accrueInterest_ok h with ⟨-, rfl⟩ | ⟨-, bps, -, ⟨-, rfl⟩ | ⟨-, l', hl, rfl⟩⟩
  · exact ⟨rfl, rfl⟩
  · exact ⟨rfl, rfl⟩
  · obtain ⟨-, -, -, d, i, f, -, -, -, rfl⟩ := ReserveLiquidity.accuredInterest_ok hl
    exact ⟨rfl, rfl⟩

theorem SamePrice.trans (h : SamePrice r r₁) (h' : SamePrice r₁ r') : SamePrice r r' :=
  ⟨h'.price.trans h.price, h'.published.trans h.published⟩

theorem samePrice_depositLiquidity {a c : U64} (h : r.depositLiquidity a = .ok (r', c)) :
    SamePrice r r' := by
  obtain ⟨-, -, v, n, -, -, rfl⟩ := depositLiquidity_ok h
  exact ⟨rfl, rfl⟩

theorem samePrice_redeemCollateral {c l : U64} (h : r.redeemCollateral c = .ok (r', l)) :
    SamePrice r r' := by
  obtain ⟨-, v, n, -, -, rfl⟩ := redeemCollateral_ok h
  exact ⟨rfl, rfl⟩

theorem samePrice_borrow {a : U64} (h : r.borrow a = .ok r') : SamePrice r r' := by
  obtain ⟨-, l', hl, rfl⟩ := borrow_ok.mp h
  obtain ⟨v, d, -, -, rfl⟩ := ReserveLiquidity.borrow_ok.mp hl
  exact ⟨rfl, rfl⟩

theorem samePrice_repay {a : U64} (h : r.repay a = .ok r') : SamePrice r r' := by
  obtain ⟨l', hl, rfl⟩ := repay_ok.mp h
  obtain ⟨v, d, -, -, rfl⟩ := ReserveLiquidity.repay_ok.mp hl
  exact ⟨rfl, rfl⟩

end Reserve

namespace Ledger

/-- A price that is read is that of the message, which is at most `maxAgeSeconds` old. -/
theorem refreshReserve_read {clock : Clock} {r r' : Reserve} {priceKey : Pubkey}
    {priceUpdate : Option PriceUpdate}
    (h : refreshReserve clock r priceKey priceUpdate = .ok r') :
    ∃ u, priceUpdate = some u ∧ r'.liquidity.priceLastUpdatedTs = u.publishTime ∧
      clock.unixTimestamp.toInt - u.publishTime.toInt ≤ maxAgeSeconds.toInt := by
  simp only [refreshReserve, bind_eq_ok, require_eq_ok, exists_const, pure_eq_ok,
    Prod.exists] at h
  obtain ⟨-, r₁, -, p, t, hprice, rfl⟩ := h
  cases priceUpdate with
  | none => cases hprice
  | some u =>
      by_cases hu : u.Accepted maxAgeSeconds clock.unixTimestamp
      · have hage := hu.age_le_iff.mpr fun hmax => absurd hmax (by decide)
        rcases PriceUpdate.getPythPrice_of_accepted hu with ⟨-, hrun⟩ | ⟨-, -, hrun⟩ |
          ⟨-, q, -, hrun⟩
        · cases hprice.symm.trans hrun
        · cases hprice.symm.trans hrun
        · cases hprice.symm.trans hrun
          exact ⟨u, rfl, rfl, hage⟩
      · obtain ⟨e, hrun⟩ := PriceUpdate.getPythPrice_of_not_accepted hu
        cases hprice.symm.trans hrun

end Ledger

/-- The reserve a price is read into, and the message it is read from. -/
def Instruction.readsPrice : Instruction → Option (Pubkey × PriceUpdate)
  | .refreshReserve _ key _ (some u) => some (key, u)
  | _ => none

namespace World

variable {mxe : Mxe} {w w' : World} {ix : Instruction} {k : Pubkey} {r r' : Reserve}

theorem ReserveChange.samePrice (h : w.ReserveChange ix k r r') (hr : w.reserves k = some r)
    (hix : ix.readsPrice = none) : r.SamePrice r' := by
  cases h with
  | config _ _ _ h => exact Reserve.samePrice_of_liquidity (Reserve.updateConfig_ok h).1
  | refresh hread _ h =>
      obtain ⟨u, rfl, -, -⟩ := Ledger.refreshReserve_read h
      rw [hread] at hix
      cases hix
  | deposit _ _ h =>
      obtain ⟨r₁, hacc, hdep⟩ := Ledger.deposit_ok h
      exact (Reserve.samePrice_accrueInterest hacc).trans (Reserve.samePrice_depositLiquidity hdep)
  | withdraw _ _ h =>
      obtain ⟨r₁, hacc, hred⟩ := Ledger.withdraw_ok h
      exact (Reserve.samePrice_accrueInterest hacc).trans (Reserve.samePrice_redeemCollateral hred)
  | borrow _ _ _ h =>
      obtain ⟨r₁, o₁, hacc, hbor, -, -⟩ := h.steps
      exact (Reserve.samePrice_accrueInterest hacc).trans (Reserve.samePrice_borrow hbor)
  | repay _ h =>
      obtain ⟨r₁, i, o₁, hacc, hrep, -, -, -⟩ := Ledger.repay_ok h
      exact (Reserve.samePrice_accrueInterest hacc).trans (Reserve.samePrice_repay hrep)
  | seize _ hk h hr' =>
      obtain ⟨r₁, hacc, ⟨-, rfl⟩ | ⟨-, hrep⟩⟩ := seize_reserve hr h hr' hk
      · exact Reserve.samePrice_accrueInterest hacc
      · exact (Reserve.samePrice_accrueInterest hacc).trans (Reserve.samePrice_repay hrep)

/-- An instruction that reads no price leaves every reserve its own; a new one has none. -/
theorem exec_unread (h : w.exec mxe ix = .ok w') (hix : ix.readsPrice = none)
    (hr' : w'.reserves k = some r') :
    (∃ r, w.reserves k = some r ∧ r.SamePrice r') ∨
      w.reserves k = none ∧ r'.liquidity.marketPriceSf = 0 := by
  rcases exec_reserve h k with hsame | ⟨q, hcreate, hq⟩ | ⟨r, q, hr, hchange, hq⟩
  · exact .inl ⟨r', hsame ▸ hr', ⟨rfl, rfl⟩⟩
  · cases hq.symm.trans hr'
    obtain ⟨a, config, m, -, -, -, -, -, hnew, hnewr⟩ := hcreate
    refine .inr ⟨hnew, ?_⟩
    rw [(Reserve.create_ok hnewr).1]
    rfl
  · cases hq.symm.trans hr'
    exact .inl ⟨r, hr, hchange.samePrice hr hix⟩

/-- One that reads a price stores the message's publication time, at most `maxAgeSeconds` ago. -/
theorem exec_read {u : PriceUpdate} (h : w.exec mxe ix = .ok w')
    (hix : ix.readsPrice = some (k, u)) : ∃ r', w'.reserves = store w.reserves k r' ∧
      r'.liquidity.priceLastUpdatedTs = u.publishTime ∧
      w.clock.unixTimestamp.toInt - u.publishTime.toInt ≤ maxAgeSeconds.toInt := by
  cases ix with
  | refreshReserve market key priceKey priceUpdate =>
      simp only [exec, World.refreshReserve, bind_eq_ok, pure_eq_ok] at h
      obtain ⟨m, -, r, -, r', hrefresh, rfl⟩ := h
      obtain ⟨u', rfl, hpublished, hage⟩ := Ledger.refreshReserve_read hrefresh
      cases hix
      exact ⟨r', rfl, hpublished, hage⟩
  | _ => cases hix

/-- Where a decision reads a price, there is one. -/
theorem priced_of_decides {x : Pubkey} {ks : List Pubkey} (h : w.exec mxe ix = .ok w')
    (hix : ix.decides = some (x, ks)) (hk : k ∈ ks) (hr : w.reserves k = some r) :
    r.liquidity.marketPriceSf ≠ 0 := by
  cases ix with
  | borrow a amount =>
      cases hix
      obtain rfl := List.mem_singleton.mp hk
      simp only [exec, World.borrow, bind_eq_ok, Prod.exists] at h
      obtain ⟨m, q, o, hcheck, r', o', hled, -⟩ := h
      have hin := (DebtAccounts.check_names hcheck).1
      cases hin.reserve.symm.trans hr
      exact ne_zero_iff_toNat_pos.mp (Ledger.pos_of_borrow hled).2
  | withdrawCollateral a amount =>
      cases hix
      exact absurd hk List.not_mem_nil
  | liquidate a amount =>
      cases hix
      simp only [exec, World.liquidate, bind_eq_ok, Prod.exists] at h
      obtain ⟨m, o, hcheck, s, hled, -⟩ := h
      obtain ⟨p, p₁, q, q₁, i, j, o₁, hparts⟩ := Ledger.seize_parts (Ledger.liquidate_ok hled)
      rcases List.mem_pair.mp hk with rfl | rfl
      · cases hparts.repayReserve.symm.trans hr
        rw [← (Reserve.accrues_of_ok hparts.repayAccrued).price]
        exact hparts.repayPrice
      · obtain ⟨q₀, hq₀, hacc⟩ := hparts.withdrawn
        cases hq₀.symm.trans hr
        rw [← (Reserve.accrues_of_ok hacc).price]
        exact hparts.withdrawPrice
  | _ => cases hix

end World

/-! ## Readings -/

/-- A `refresh_reserve`: when it ran, and how old the price was then. -/
structure Reading where
  readAt : Int64
  age : ℤ

namespace Reading

/-- The price is still usable: no second has passed since it was read, or its age at the reading and
the time since then are together within `maxAgeSeconds`. -/
def InTime (now : Int64) (ρ : Reading) : Prop :=
  now = ρ.readAt ∨ ρ.age + (now.toInt - ρ.readAt.toInt) ≤ maxAgeSeconds.toInt

instance decidableInTime (now : Int64) : DecidablePred (InTime now) := fun _ =>
  inferInstanceAs (Decidable (_ ∨ _))

/-- A publication time comes from this reading. -/
structure Dates (ts : Int64) (ρ : Reading) : Prop where
  published : ts.toInt = ρ.readAt.toInt - ρ.age
  checked : ρ.age ≤ maxAgeSeconds.toInt

theorem Dates.fresh {now ts : Int64} {ρ : Reading} (h : Dates ts ρ) (hnow : ρ.InTime now) :
    Fresh now ts := by
  have hpublished := h.published
  have hchecked := h.checked
  unfold Fresh
  rcases hnow with rfl | hnow <;> omega

end Reading

namespace PriceMarks

variable {d : PriceDates} {m : PriceMarks Reading} {o : Obligation}

/-- The dates are those of the readings, slot by slot. -/
structure DatedBy (d : PriceDates) (m : PriceMarks Reading) : Prop where
  deposits : ∀ i, Option.Rel Reading.Dates (d.deposits i) (m.deposits i)
  borrows : ∀ i, Option.Rel Reading.Dates (d.borrows i) (m.borrows i)

theorem datedBy_none : PriceMarks.none.DatedBy .none := ⟨fun _ => .none, fun _ => .none⟩

theorem rel_or {a a' : Option Int64} {b b' : Option Reading} (h : Option.Rel Reading.Dates a b)
    (h' : Option.Rel Reading.Dates a' b') : Option.Rel Reading.Dates (a.or a') (b.or b') := by
  cases h with
  | some h => exact .some h
  | none => exact h'

theorem DatedBy.refresh {source : Pubkey → Option Int64} {source' : Pubkey → Option Reading}
    (h : d.DatedBy m) (hsource : ∀ k, Option.Rel Reading.Dates (source k) (source' k))
    (o : Obligation) : (d.refresh source o).DatedBy (m.refresh source' o) := by
  constructor
  · intro i
    simp only [PriceMarks.refresh]
    split
    · exact rel_or (hsource _) (h.deposits i)
    · exact h.deposits i
  · intro i
    simp only [PriceMarks.refresh]
    split
    · exact rel_or (hsource _) (h.borrows i)
    · exact h.borrows i

theorem DatedBy.carry (h : d.DatedBy m) (o o' : Obligation) :
    (d.carry o o').DatedBy (m.carry o o') := by
  constructor
  · intro i
    simp only [PriceMarks.carry]
    split
    · exact h.deposits i
    · exact .none
  · intro i
    simp only [PriceMarks.carry]
    split
    · exact h.borrows i
    · exact .none

theorem fresh_of_rel {now : Int64} {a : Option Int64} {b : Option Reading}
    (h : Option.Rel Reading.Dates a b) (hb : ∀ ρ ∈ b, ρ.InTime now) : ∀ ts ∈ a, Fresh now ts := by
  cases h with
  | none => exact fun ts hts => (Option.not_mem_none ts hts).elim
  | some h =>
      intro ts hts
      obtain rfl := Option.some.inj hts
      exact h.fresh (hb _ rfl)

/-- Dates are fresh when the readings they come from are in time. -/
theorem DatedBy.freshAt {now : Int64} (h : d.DatedBy m) (hm : m.All (Reading.InTime now) o) :
    d.FreshAt now o :=
  ⟨fun i hact => fresh_of_rel (h.deposits i) (hm.1 i hact),
    fun i hact => fresh_of_rel (h.borrows i) (hm.2 i hact)⟩

end PriceMarks

theorem datedBy_marksAfter {mxe : Mxe} {w : World} {ix : Instruction}
    {source : Pubkey → Option Int64} {source' : Pubkey → Option Reading}
    {dates : Pubkey → PriceDates} {behind : Pubkey → PriceMarks Reading}
    (h : ∀ x, (dates x).DatedBy (behind x))
    (hsource : ∀ k, Option.Rel Reading.Dates (source k) (source' k)) (x : Pubkey) :
    (marksAfter mxe w ix source dates x).DatedBy (marksAfter mxe w ix source' behind x) := by
  unfold marksAfter
  split
  · split
    · exact ((h x).refresh hsource _).carry _ _
    · exact (h x).carry _ _
  · exact PriceMarks.datedBy_none

/-! ## Monitored runs -/

/-- A dated world with the last reading of every reserve, and the readings behind all cached
values. -/
structure Monitored where
  dated : Dated
  readings : Pubkey → Option Reading
  behind : Pubkey → PriceMarks Reading

namespace Monitored

def genesis (clock : Clock) : Monitored := ⟨.genesis clock, fun _ => none, fun _ => .none⟩

/-- The readings at which a refresh values slots. -/
def lastRead (t : Monitored) : Pubkey → Option Reading :=
  ofPriced t.dated.world.reserves fun k _ => t.readings k

/-- A transaction, monitored: a price that is read is written down with the time and its age. -/
def tx (mxe : Mxe) (t : Monitored) (ix : Instruction) : Monitored where
  dated := t.dated.tx mxe ix
  readings :=
    match ix.readsPrice with
    | some (k, u) =>
        if (t.dated.world.exec mxe ix).isOk = true then
          let now := t.dated.world.clock.unixTimestamp
          store t.readings k ⟨now, now.toInt - u.publishTime.toInt⟩
        else t.readings
    | none => t.readings
  behind := marksAfter mxe t.dated.world ix t.lastRead t.behind

/-! ## The condition -/

/-- Where a decision reads prices on the spot, their reserves were refreshed in time. -/
def ReservesInTime (t : Monitored) (ix : Instruction) : Prop :=
  ∀ p ∈ ix.decides, ∀ k ∈ p.2, ∀ ρ ∈ t.readings k, ρ.InTime t.dated.world.clock.unixTimestamp

/-- Where an obligation is refreshed, the reserves it is valued at were refreshed in time; and so
were those a skipped slot was valued at before. -/
def RefreshInTime (t : Monitored) (ix : Instruction) : Prop :=
  ∀ x ∈ ix.refreshed, ∀ o ∈ t.dated.world.obligations x,
    ((t.behind x).refresh t.lastRead o).All (Reading.InTime t.dated.world.clock.unixTimestamp) o

/-- Where time passes within a slot, the readings behind the obligations refreshed in that slot stay
in time. -/
def TimeInSlot (t : Monitored) (ix : Instruction) : Prop :=
  ∀ clock ∈ ix.time, clock.slot = t.dated.world.clock.slot →
    ∀ x o, t.dated.world.obligations x = some o → o.lastUpdate.slot = clock.slot →
      (t.behind x).All (Reading.InTime clock.unixTimestamp) o

/-- A successful step comes in time after the readings it builds on. -/
def InTime (mxe : Mxe) (t : Monitored) (ix : Instruction) : Prop :=
  (t.dated.world.exec mxe ix).isOk = true →
    t.ReservesInTime ix ∧ t.RefreshInTime ix ∧ t.TimeInSlot ix

/-- Time moves on to another slot. -/
def NewSlot (t : Monitored) (ix : Instruction) : Prop :=
  ∀ clock ∈ ix.time, clock.slot ≠ t.dated.world.clock.slot

theorem timeInSlot_of_newSlot {t : Monitored} {ix : Instruction} (h : t.NewSlot ix) :
    t.TimeInSlot ix := fun clock hclock hslot => absurd hslot (h clock hclock)

instance decidableReservesInTime (t : Monitored) (ix : Instruction) :
    Decidable (t.ReservesInTime ix) :=
  letI (k : Pubkey) : Decidable (∀ ρ ∈ t.readings k,
      ρ.InTime t.dated.world.clock.unixTimestamp) := (t.readings k).decidableForallMem
  inferInstanceAs (Decidable (∀ p ∈ ix.decides, ∀ k ∈ p.2, _))

instance decidableRefreshInTime (t : Monitored) (ix : Instruction) :
    Decidable (t.RefreshInTime ix) :=
  inferInstanceAs (Decidable (∀ x ∈ ix.refreshed, _))

instance decidableNewSlot (t : Monitored) (ix : Instruction) : Decidable (t.NewSlot ix) :=
  inferInstanceAs (Decidable (∀ clock ∈ ix.time, _))

/-! ## Prices are those of the readings -/

/-- Reserves with a price have been read, and publication times, of stored prices and of cached
values, are those of the readings. -/
structure Accounted (t : Monitored) : Prop where
  read : ∀ k ρ, t.readings k = some ρ → ∃ r, t.dated.world.reserves k = some r ∧
    Reading.Dates r.liquidity.priceLastUpdatedTs ρ
  priced : ∀ k r, t.dated.world.reserves k = some r → r.liquidity.marketPriceSf ≠ 0 →
    ∃ ρ, t.readings k = some ρ
  behind : ∀ x, (t.dated.dates x).DatedBy (t.behind x)

variable {mxe : Mxe} {t : Monitored} {ix : Instruction} {w' : World}

theorem accounted_genesis (clock : Clock) : (genesis clock).Accounted where
  read := fun _ _ h => (Option.not_mem_none _ h).elim
  priced := fun _ _ h => (Option.not_mem_none _ h).elim
  behind := fun _ => PriceMarks.datedBy_none

theorem Accounted.of_priced (h : t.Accounted) {k : Pubkey} {r : Reserve}
    (hr : t.dated.world.reserves k = some r) (hprice : r.liquidity.marketPriceSf ≠ 0) :
    ∃ ρ, t.readings k = some ρ ∧ Reading.Dates r.liquidity.priceLastUpdatedTs ρ := by
  obtain ⟨ρ, hρ⟩ := h.priced k r hr hprice
  obtain ⟨q, hq, hdates⟩ := h.read k ρ hρ
  cases hq.symm.trans hr
  exact ⟨ρ, hρ, hdates⟩

theorem Accounted.source (h : t.Accounted) (k : Pubkey) :
    Option.Rel Reading.Dates (published t.dated.world.reserves k) (t.lastRead k) := by
  unfold published lastRead ofPriced
  cases hr : t.dated.world.reserves k with
  | none => exact .none
  | some r =>
      simp only [Option.bind_some]
      split
      · exact .none
      case isFalse hprice =>
        obtain ⟨ρ, hρ, hdates⟩ := h.of_priced hr hprice
        rw [hρ]
        exact .some hdates

/-- The readings after a step that reads none. -/
theorem readings_unread (hix : ix.readsPrice = none) : (t.tx mxe ix).readings = t.readings := by
  simp only [tx, hix]

theorem readings_read {k : Pubkey} {u : PriceUpdate} (h : t.dated.world.exec mxe ix = .ok w')
    (hix : ix.readsPrice = some (k, u)) :
    (t.tx mxe ix).readings = store t.readings k ⟨t.dated.world.clock.unixTimestamp,
      t.dated.world.clock.unixTimestamp.toInt - u.publishTime.toInt⟩ := by
  simp only [tx, hix, h, Except.isOk, Except.toBool, if_true]

theorem readings_error {e : Fault} (h : t.dated.world.exec mxe ix = .error e) :
    (t.tx mxe ix).readings = t.readings := by
  simp only [tx, h, Except.isOk, Except.toBool, Bool.false_eq_true, if_false]
  split <;> rfl

/-- Every step keeps the accounts: prices change hands with a reading, or not at all. -/
theorem accounted_tx (mxe : Mxe) (ix : Instruction) (h : t.Accounted) :
    (t.tx mxe ix).Accounted := by
  have hbehind : ∀ x, ((t.tx mxe ix).dated.dates x).DatedBy ((t.tx mxe ix).behind x) :=
    datedBy_marksAfter h.behind h.source
  cases hex : t.dated.world.exec mxe ix with
  | error e =>
      have hw : (t.tx mxe ix).dated.world = t.dated.world := by
        show t.dated.world.tx mxe ix = _
        rw [World.tx, attemptStep, hex]
      refine ⟨?_, ?_, hbehind⟩ <;> rw [readings_error hex, hw]
      · exact h.read
      · exact h.priced
  | ok w' =>
      have hw : (t.tx mxe ix).dated.world = w' := attemptStep_ok hex
      cases hix : ix.readsPrice with
      | none =>
          refine ⟨fun k ρ hρ => ?_, fun k r hr hprice => ?_, hbehind⟩
          · rw [readings_unread hix] at hρ
            obtain ⟨r, hr, hdates⟩ := h.read k ρ hρ
            obtain ⟨r', hr', hcase⟩ := World.exec_reserve_at hex hr
            refine ⟨r', hw ▸ hr', ?_⟩
            rcases World.exec_unread hex hix hr' with ⟨q, hq, hsame⟩ | ⟨hnew, -⟩
            · cases hq.symm.trans hr
              rw [hsame.published]
              exact hdates
            · cases hnew.symm.trans hr
          · rw [hw] at hr
            rw [readings_unread hix]
            rcases World.exec_unread hex hix hr with ⟨q, hq, hsame⟩ | ⟨-, hzero⟩
            · exact h.priced k q hq (hsame.price ▸ hprice)
            · exact absurd hzero hprice
      | some p =>
          obtain ⟨key, u⟩ := p
          obtain ⟨r', hreserves, hpublished, hage⟩ := World.exec_read hex hix
          refine ⟨fun k ρ hρ => ?_, fun k r hr hprice => ?_, hbehind⟩
          · rw [readings_read hex hix] at hρ
            rw [hw, hreserves]
            by_cases hk : k = key
            · subst hk
              rw [store_self] at hρ ⊢
              cases hρ
              refine ⟨r', rfl, ?_, hage⟩
              rw [hpublished]
              simp only
              omega
            · rw [store_of_ne _ _ hk] at hρ ⊢
              exact h.read k ρ hρ
          · rw [hw, hreserves] at hr
            rw [readings_read hex hix]
            by_cases hk : k = key
            · exact ⟨_, by rw [hk, store_self]⟩
            · rw [store_of_ne _ _ hk] at hr ⊢
              exact h.priced k r hr hprice

/-- A step in time finds fresh prices: the ages of stored and cached prices follow from those of the
readings. -/
theorem Accounted.keepsFresh (h : t.Accounted) (hin : t.InTime mxe ix) :
    t.dated.KeepsFresh mxe ix := by
  intro hok
  obtain ⟨hreserves, hrefresh, htime⟩ := hin hok
  refine ⟨fun p hp k hk r hr => ?_, fun x hx o ho => ?_, fun clock hclock hslot x o ho hst => ?_⟩
  · cases hex : t.dated.world.exec mxe ix with
    | error e =>
        rw [hex] at hok
        cases hok
    | ok w' =>
        obtain ⟨ρ, hρ, hdates⟩ := h.of_priced hr (World.priced_of_decides hex hp hk hr)
        exact hdates.fresh (hreserves p hp k hk ρ hρ)
  · exact ((h.behind x).refresh h.source o).freshAt (hrefresh x hx o ho)
  · exact (h.behind x).freshAt (htime clock hclock hslot x o ho hst)

end Monitored

namespace Dated

/-- In a run whose decisions come in time after the refreshes of their obligations and reserves,
every decision is taken at fresh prices. -/
theorem freshDecision_run (mxe : Mxe) (clock : Clock) (ixs : List Instruction)
    (h : EachStep (Monitored.tx mxe) (Monitored.InTime mxe) (.genesis clock) ixs) :
    EachStep (tx mxe) (FreshDecision mxe) (genesis clock) ixs := by
  have hstart : (genesis clock).Current := by
    intro x o ho
    cases ho
  have hkeep : ∀ (t : Monitored) (ix : Instruction), t.Accounted ∧ t.dated.Current →
      t.InTime mxe ix → (t.tx mxe ix).Accounted ∧ (t.tx mxe ix).dated.Current :=
    fun t ix ht hin =>
      ⟨Monitored.accounted_tx mxe ix ht.1, current_tx ht.2 (ht.1.keepsFresh hin)⟩
  have hrun : EachStep (Monitored.tx mxe) (fun t ix => t.dated.FreshDecision mxe ix)
      (.genesis clock) ixs :=
    eachStep_of_eachStep hkeep
      (fun t ix ht hin => freshDecision_of_current ht.2 (ht.1.keepsFresh hin)) ixs _
      ⟨Monitored.accounted_genesis clock, hstart⟩ h
  exact eachStep_map Monitored.dated (fun _ _ => rfl) hrun

/-- Two later slots: in the first the user refreshes the reserve, with a price ten seconds old, and
the obligation; in the second, thirty seconds on, the obligation alone. -/
def refreshedRun : List Instruction :=
  openPool ++ join 1 ++
    [.advanceClock ⟨10, 100⟩, refreshPool 90, refreshUser 1,
      .withdrawCollateral (collateralOf 1) 10, .borrow (debtOf 1) 1000, .advanceClock ⟨11, 130⟩,
      refreshUser 1, .borrow (debtOf 1) 500]

/-- Every step of that run succeeds, and its three decisions are taken at fresh prices. -/
theorem freshDecision_run_refreshed :
    EachStep (tx plainMxe)
      (fun d ix => d.FreshDecision plainMxe ix ∧ (d.world.exec plainMxe ix).isOk = true)
      (genesis ⟨0, 0⟩) refreshedRun := by
  have hrun : EachStep (Monitored.tx plainMxe)
      (fun t ix => t.ReservesInTime ix ∧ t.RefreshInTime ix ∧ t.NewSlot ix) (.genesis ⟨0, 0⟩)
      refreshedRun := by decide +kernel
  have hok : EachStep (tx plainMxe) (fun d ix => (d.world.exec plainMxe ix).isOk = true)
      (genesis ⟨0, 0⟩) refreshedRun := by decide +kernel
  refine EachStep.and (freshDecision_run plainMxe ⟨0, 0⟩ refreshedRun ?_) hok
  refine hrun.imp_mem fun t ix _ h _ => ?_
  exact ⟨h.1, h.2.1, Monitored.timeInSlot_of_newSlot h.2.2⟩

/-! ## A borrow at an old price -/

/-- The price was published at time 0; a hundred seconds later the user refreshes the obligation
alone. -/
def agedRun : List Instruction :=
  openPool ++ join 1 ++ [.advanceClock ⟨10, 100⟩, refreshUser 1]

def agedDated : Dated := agedRun.foldl (tx plainMxe) (genesis ⟨0, 0⟩)

theorem not_forall_freshDecision :
    ¬ ∀ (mxe : Mxe) (clock : Clock) (ixs : List Instruction),
        EachStep (tx mxe) (FreshDecision mxe) (genesis clock) ixs := by
  intro hall
  let loan := Instruction.borrow (debtOf 1) 1000
  have hrun := hall plainMxe ⟨0, 0⟩ (agedRun ++ [loan])
  have hlast : agedDated.FreshDecision plainMxe loan := hrun.last
  have hok : (agedDated.world.exec plainMxe loan).isOk = true := by decide +kernel
  have hstale : (agedDated.world.obligations (debtOf 1).obligation).any (fun o =>
      ¬ (agedDated.dates (debtOf 1).obligation).FreshAt agedDated.world.clock.unixTimestamp o) =
      true := by decide +kernel
  obtain ⟨o, ho, hnot⟩ := (Option.any_eq_true _ _).mp hstale
  obtain ⟨-, hcached⟩ := hlast _ _ rfl hok
  exact of_decide_eq_true hnot (hcached o ho)

end Dated

end VeilVault
