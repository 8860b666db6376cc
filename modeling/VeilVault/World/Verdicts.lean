/-
# VeilVault.World.Verdicts — whether a liquidatable flag is true of the prices on chain.

A verdict is computed from four numbers that the caller of `private_check_liquidatable` passes.  The
code derives nothing from the reserves, so any position with a debt can be flagged with a price of
zero.  The verdict is also about another time than the flag: the position and the reserves may move
between the queueing and the callback.

`Fair` says that the four numbers, rounded as the circuit rounds them, do not put the collateral
lower against the debt than the reserves do.  Of a check that is fair when it is queued, while no
update is in flight, and that nothing overtakes, the verdict holds when it arrives.
-/
import Mathlib.Tactic.Linarith
import VeilVault.Private.Updates
import VeilVault.World.Accounts

namespace VeilVault

open Kit

/-! ## Valuation -/

namespace PrivatePosition

/-- The collateral at a reserve's exchange rate, market price and liquidation threshold. -/
def collateralValue (p : PrivatePosition) (c : Reserve) : ℚ :=
  let x := c.collateralExchangeRate
  p.collateralTokens.toNat * (x.totalLiquidity.toNat / x.collateralSupply.toNat) *
    c.liquidity.marketPriceSf.toNat * (c.config.liquidationThresholdPct.toNat / 100)

/-- The debt at a reserve's market price. -/
def debtValue (p : PrivatePosition) (b : Reserve) : ℚ :=
  p.borrowTokens.toNat * b.liquidity.marketPriceSf.toNat

/-- The collateral is worth less than the debt. -/
def Underwater (p : PrivatePosition) (c b : Reserve) : Prop := p.collateralValue c < p.debtValue b

/-- The collateral value of the circuit, in integers that do not wrap. -/
def quotedCollateral (p : PrivatePosition) (rate collateralPrice ltv : U64) : ℕ :=
  p.collateralTokens.toNat * rate.toNat * ltv.toNat / 100000000 * collateralPrice.toNat

def quotedDebt (p : PrivatePosition) (borrowPrice : U64) : ℕ :=
  p.borrowTokens.toNat * borrowPrice.toNat

/-- The arguments of a check fit the circuit's arithmetic on the collateral side, and do not put the
collateral lower against the debt than the reserves do. -/
def Fair (p : PrivatePosition) (c b : Reserve) (rate collateralPrice borrowPrice ltv : U64) :
    Prop :=
  p.collateralTokens.toNat * rate.toNat * ltv.toNat < 2 ^ 64 ∧
    p.quotedCollateral rate collateralPrice ltv < 2 ^ 64 ∧
    0 < b.liquidity.marketPriceSf.toNat ∧
    p.collateralValue c * p.quotedDebt borrowPrice ≤
      p.quotedCollateral rate collateralPrice ltv * p.debtValue b

variable {p : PrivatePosition} {c b : Reserve} {rate collateralPrice borrowPrice ltv : U64}

/-- An unhealthy verdict, read in integers: a debt that wraps only looks smaller. -/
theorem quoted_lt_of_checkHealthV2
    (hfit : p.collateralTokens.toNat * rate.toNat * ltv.toNat < 2 ^ 64)
    (hfit' : p.quotedCollateral rate collateralPrice ltv < 2 ^ 64)
    (h : Circuits.checkHealthV2 p rate collateralPrice borrowPrice ltv = false) :
    p.quotedCollateral rate collateralPrice ltv < p.quotedDebt borrowPrice := by
  have hlt : p.collateralTokens.toNat * rate.toNat % 2 ^ 64 * ltv.toNat % 2 ^ 64 / 100000000 *
      collateralPrice.toNat % 2 ^ 64 < p.borrowTokens.toNat * borrowPrice.toNat % 2 ^ 64 := by
    have hscale : (100000000 : U64).toNat = 100000000 := rfl
    simpa only [Circuits.checkHealthV2, decide_eq_false_iff_not, ge_iff_le, BitVec.not_le,
      BitVec.lt_def, BitVec.toNat_mul, BitVec.toNat_udiv, hscale] using h
  have hadj : p.collateralTokens.toNat * rate.toNat % 2 ^ 64 * ltv.toNat % 2 ^ 64 =
      p.collateralTokens.toNat * rate.toNat * ltv.toNat := by
    rw [Nat.mul_mod, Nat.mod_mod, ← Nat.mul_mod, Nat.mod_eq_of_lt hfit]
  unfold quotedCollateral at hfit' ⊢
  rw [hadj, Nat.mod_eq_of_lt hfit'] at hlt
  exact hlt.trans_le (Nat.mod_le _ _)

/-- An unhealthy verdict on fair arguments is right. -/
theorem Fair.underwater (hfair : p.Fair c b rate collateralPrice borrowPrice ltv)
    (h : Circuits.checkHealthV2 p rate collateralPrice borrowPrice ltv = false) :
    p.Underwater c b := by
  obtain ⟨hfit, hfit', hprice, hratio⟩ := hfair
  have hlt := quoted_lt_of_checkHealthV2 hfit hfit' h
  have hborrow : 0 < p.borrowTokens.toNat :=
    Nat.pos_of_mul_pos_right (Nat.zero_lt_of_lt hlt)
  have hdebt : 0 < p.debtValue b := mul_pos (Nat.cast_pos.mpr hborrow) (Nat.cast_pos.mpr hprice)
  have hlt' : (p.quotedCollateral rate collateralPrice ltv : ℚ) < p.quotedDebt borrowPrice :=
    Nat.cast_lt.mpr hlt
  unfold Underwater
  by_contra hge
  have hge' : p.debtValue b * p.quotedDebt borrowPrice ≤
      p.collateralValue c * p.quotedDebt borrowPrice :=
    mul_le_mul_of_nonneg_right (not_lt.mp hge) (Nat.cast_nonneg _)
  -- the larger debt over the same value would be the smaller one
  have hle : (p.quotedDebt borrowPrice : ℚ) * p.debtValue b ≤
      p.quotedCollateral rate collateralPrice ltv * p.debtValue b := by
    rw [mul_comm]
    exact hge'.trans hratio
  exact absurd (le_of_mul_le_mul_right hle hdebt) (not_le.mpr hlt')

end PrivatePosition

/-! ## Verdicts in flight -/

namespace PrivateState

/-- Nothing in flight writes the position. -/
def NoUpdate (s : PrivateState) : Prop :=
  (∀ c ∈ s.queued, c.circuit.kind = .checkHealth) ∧ ∀ out ∈ s.outputs, out.kind = .checkHealth

end PrivateState

namespace World

variable {mxe : Mxe} {w w' : World} {s s' : PrivateState} {key : Pubkey} {ix : Instruction}

/-- The collateral reserve and the borrow reserve of a private obligation. -/
def backing (w : World) (s : PrivateState) : Option (Reserve × Reserve) := do
  let c ← w.reserves s.account.collateralReserve
  let b ← w.reserves s.account.borrowReserve
  return (c, b)

/-- The decrypted position is underwater by the reserves it names. -/
def Underwater (mxe : Mxe) (w : World) (s : PrivateState) : Prop :=
  ∃ q ∈ w.backing s, (s.position mxe).Underwater q.1 q.2

/-- The circuit is a health check with fair arguments. -/
def FairCheck (mxe : Mxe) (w : World) (s : PrivateState) : Circuit → Prop
  | .checkHealth rate collateralPrice borrowPrice ltv =>
      ∃ q ∈ w.backing s, (s.position mxe).Fair q.1 q.2 rate collateralPrice borrowPrice ltv
  | .initPosition | .addCollateral _ | .addBorrow _ => False

/-- Everything in flight is a check of the position as it is, and says the truth about it. -/
structure Watch (mxe : Mxe) (w : World) (s : PrivateState) : Prop where
  queued : ∀ c ∈ s.queued, c.nonce = s.account.nonce ∧ w.FairCheck mxe s c.circuit
  outputs : ∀ out ∈ s.outputs, ∃ isHealthy, out = .checkHealth isHealthy ∧
    (isHealthy = false → w.Underwater mxe s)

/-- With no check and no update in flight there is nothing to watch. -/
theorem Watch.of_noUpdate (hnone : s.inFlight .checkHealth = 0) (h : s.NoUpdate) :
    w.Watch mxe s := by
  obtain ⟨hqueued, houtputs⟩ := Nat.add_eq_zero_iff.mp hnone
  rw [List.countP_eq_zero] at hqueued houtputs
  constructor
  · intro c hc
    exact absurd (decide_eq_true (h.1 c hc)) (hqueued c hc)
  · intro out hout
    exact absurd (decide_eq_true (h.2 out hout)) (houtputs out hout)

/-- The position and the two reserves are what they were. -/
structure Still (mxe : Mxe) (w : World) (s : PrivateState) (w' : World) (s' : PrivateState) :
    Prop where
  nonce : s'.account.nonce = s.account.nonce
  position : s'.position mxe = s.position mxe
  backing : w'.backing s' = w.backing s

theorem Still.underwater (h : Still mxe w s w' s') (hu : w.Underwater mxe s) :
    w'.Underwater mxe s' := by
  unfold Underwater at hu ⊢
  rw [h.position, h.backing]
  exact hu

theorem Still.fairCheck (h : Still mxe w s w' s') {circuit : Circuit}
    (hfair : w.FairCheck mxe s circuit) : w'.FairCheck mxe s' circuit := by
  cases circuit with
  | checkHealth rate cprice bprice ltv =>
      unfold FairCheck at hfair ⊢
      rw [h.position, h.backing]
      exact hfair
  | initPosition | addCollateral | addBorrow => exact hfair

theorem Watch.still (hw : w.Watch mxe s) (h : Still mxe w s w' s')
    (hqueued : s'.queued = s.queued) (houtputs : s'.outputs = s.outputs) : w'.Watch mxe s' := by
  constructor
  · intro c hc
    obtain ⟨hnonce, hfair⟩ := hw.queued c (hqueued ▸ hc)
    exact ⟨hnonce.trans h.nonce.symm, h.fairCheck hfair⟩
  · intro out hout
    obtain ⟨b, rfl, htrue⟩ := hw.outputs out (houtputs ▸ hout)
    exact ⟨b, rfl, fun hb => h.underwater (htrue hb)⟩

/-- A fair check of the position as it is joins in. -/
theorem Watch.check (hw : w.Watch mxe s) {circuit : Circuit}
    (hfair : w.FairCheck mxe s circuit) : w.Watch mxe (s.queue circuit) := by
  constructor
  · intro c hc
    rcases List.mem_append.mp hc with hc | hc
    · exact hw.queued c hc
    · rw [List.mem_singleton] at hc
      rw [hc]
      exact ⟨rfl, hfair⟩
  · exact hw.outputs

/-- The verdict of a fair check is true when it is reached. -/
theorem Watch.execute (hw : w.Watch mxe s) (i : Nat) (fresh : U128) :
    w.Watch mxe (s.execute mxe i fresh) := by
  have hspec := s.executed mxe i fresh
  generalize s.execute mxe i fresh = t at hspec ⊢
  cases hspec with
  | idle _ => exact hw
  | @run c before after hget hqueued =>
      have hmem : c ∈ s.queued := List.mem_of_getElem? hget
      obtain ⟨hnonce, hfair⟩ := hw.queued c hmem
      constructor
      · intro c' hc'
        apply hw.queued c'
        rw [hqueued]
        rcases List.mem_append.mp hc' with hc' | hc'
        · exact List.mem_append_left _ hc'
        · exact List.mem_append_right _ (List.mem_cons_of_mem _ hc')
      · intro out hout
        rcases List.mem_append.mp hout with hout | hout
        · exact hw.outputs out hout
        · rw [List.mem_singleton] at hout
          obtain ⟨circuit, nonce⟩ := c
          cases circuit with
          | checkHealth rate cprice bprice ltv =>
              refine ⟨_, hout, fun hb => ?_⟩
              obtain ⟨q, hq, hfair⟩ := hfair
              -- the nonce is the account's, so the circuit saw the stored position
              obtain rfl : nonce = s.account.nonce := hnonce
              exact ⟨q, hq, hfair.underwater hb⟩
          | initPosition | addCollateral | addBorrow => exact hfair.elim

/-- The callback of a check writes the flag only. -/
theorem Watch.deliver (hw : w.Watch mxe s) (i : Nat) : w.Watch mxe (s.deliver i) := by
  have hspec := s.delivered i
  generalize s.deliver i = t at hspec ⊢
  cases hspec with
  | idle _ => exact hw
  | @run out before after hget houtputs =>
      obtain ⟨b, rfl, -⟩ := hw.outputs out (List.mem_of_getElem? hget)
      constructor
      · exact hw.queued
      · intro out' hout'
        apply hw.outputs out'
        rw [houtputs]
        rcases List.mem_append.mp hout' with hout' | hout'
        · exact List.mem_append_left _ hout'
        · exact List.mem_append_right _ (List.mem_cons_of_mem _ hout')

/-- Nothing new is to be watched when something is lost. -/
theorem Watch.lost (hw : w.Watch mxe s) (h : s.Lost s') : w.Watch mxe s' := by
  have hstill : Still mxe w s w s' := by
    refine ⟨by rw [h.account], ?_, ?_⟩
    · rw [PrivateState.position, h.account]
      rfl
    · unfold backing
      rw [h.account]
  constructor
  · intro c hc
    obtain ⟨hnonce, hfair⟩ := hw.queued c (h.queued.subset hc)
    exact ⟨hnonce.trans hstill.nonce.symm, hstill.fairCheck hfair⟩
  · intro out hout
    obtain ⟨b, rfl, htrue⟩ := hw.outputs out (h.outputs.subset hout)
    exact ⟨b, rfl, fun hb => hstill.underwater (htrue hb)⟩

/-! ## Runs -/

/-- A check of `key` is queued with fair arguments, and while no update is in flight. -/
def ChecksFairly (mxe : Mxe) (key : Pubkey) (w : World) (ix : Instruction) : Prop :=
  ∀ p ∈ ix.privateEvent, p.1 = key → ∀ circuit ∈ p.2.circuit, circuit.kind = .checkHealth →
    (w.account key).NoUpdate ∧ w.FairCheck mxe (w.account key) circuit

/-- While a check of `key` is in flight, no update of it is queued and its two reserves are not
written. -/
def SparesChecked (key : Pubkey) (w : World) (ix : Instruction) : Prop :=
  0 < (w.account key).inFlight .checkHealth →
    (∀ p ∈ ix.privateEvent, p.1 = key → ∀ circuit ∈ p.2.circuit, circuit.kind = .checkHealth) ∧
      (w.account key).account.collateralReserve ∉ ix.reserves ∧
      (w.account key).account.borrowReserve ∉ ix.reserves

/-- A callback that sets the flag of `key` tells the truth about the reserves. -/
def FlagTrue (mxe : Mxe) (key : Pubkey) (w : World) (ix : Instruction) : Prop :=
  ∀ i s, ix = .callback key i → w.privates key = some s →
    s.outputs[i]? = some (.checkHealth false) → w.Underwater mxe s

/-- No check of `key` is in flight, or they are all watched. -/
def Watched (mxe : Mxe) (key : Pubkey) (w : World) : Prop :=
  (w.account key).inFlight .checkHealth = 0 ∨ w.Watch mxe (w.account key)

theorem tx_reserves {k : Pubkey} (hk : k ∉ ix.reserves) :
    (w.tx mxe ix).reserves k = w.reserves k := by
  unfold tx attemptStep
  cases h : w.exec mxe ix with
  | ok w' => exact exec_reserves h hk
  | error e => rfl

/-- Writing other reserves moves neither the position nor its two reserves. -/
theorem still_tx {account : PrivateObligation} {queued : List Computation}
    {outputs : List Output} (hc : s.account.collateralReserve ∉ ix.reserves)
    (hb : s.account.borrowReserve ∉ ix.reserves) (he : account.encState = s.account.encState)
    (hn : account.nonce = s.account.nonce)
    (hcollateral : account.collateralReserve = s.account.collateralReserve)
    (hborrow : account.borrowReserve = s.account.borrowReserve) :
    Still mxe w s (w.tx mxe ix) ⟨account, queued, outputs⟩ where
  nonce := hn
  position := by
    unfold PrivateState.position
    rw [he, hn]
  backing := by
    unfold backing
    rw [hcollateral, hborrow, tx_reserves hc, tx_reserves hb]

theorem Watch.on {ev : PrivateEvent} (hw : w.Watch mxe s) (hon : s.on mxe ev = .ok s')
    (hcheck : ∀ circuit ∈ ev.circuit, circuit.kind = .checkHealth ∧ w.FairCheck mxe s circuit)
    (hc : s.account.collateralReserve ∉ ix.reserves)
    (hb : s.account.borrowReserve ∉ ix.reserves) : (w.tx mxe ix).Watch mxe s' := by
  cases ev with
  | init => exact absurd (hcheck _ rfl).1 (by decide)
  | depositCollateral => exact absurd (hcheck _ rfl).1 (fun h => by cases h)
  | borrow => exact absurd (hcheck _ rfl).1 (fun h => by cases h)
  | check rate cprice bprice ltv =>
      simp only [PrivateState.on, PrivateState.privateCheckLiquidatable, bind_eq_ok,
        require_eq_ok, exists_const, pure_eq_ok] at hon
      obtain ⟨-, rfl⟩ := hon
      have hnow := hw.check (hcheck _ rfl).2
      exact hnow.still (still_tx hc hb rfl rfl rfl rfl) rfl rfl
  | liquidate =>
      obtain ⟨-, rfl⟩ := PrivateState.clearFlag_of_on hon
      exact hw.still (still_tx hc hb rfl rfl rfl rfl) rfl rfl
  | execute i fresh =>
      cases hon
      have haccount := s.account_execute mxe i fresh
      have hnow := hw.execute i fresh
      apply hnow.still _ rfl rfl
      exact still_tx (haccount ▸ hc) (haccount ▸ hb) rfl rfl rfl rfl
  | deliver i =>
      cases hon
      have hnow := hw.deliver i
      apply hnow.still _ rfl rfl
      obtain ⟨hcollateral, hborrow⟩ := s.reserves_deliver i
      exact still_tx (hcollateral ▸ hc) (hborrow ▸ hb) rfl rfl rfl rfl
  | abort executed i =>
      cases hon
      have haccount := s.account_abort i executed
      have hnow := hw.lost (s.lost i executed)
      apply hnow.still _ rfl rfl
      exact still_tx (haccount ▸ hc) (haccount ▸ hb) rfl rfl rfl rfl

/-- Events other than queueing a check put no check in flight. -/
theorem inFlight_on_eq_zero {ev : PrivateEvent} (hnone : s.inFlight .checkHealth = 0)
    (hon : s.on mxe ev = .ok s') (hev : ∀ circuit ∈ ev.circuit, circuit.kind ≠ .checkHealth) :
    s'.inFlight .checkHealth = 0 := by
  cases hc : ev.circuit with
  | some circuit =>
      rw [(PrivateState.queued_of_on hc hon).inFlight, hnone, if_neg (hev circuit hc)]
  | none =>
      cases ev with
      | init | depositCollateral | borrow | check => cases hc
      | liquidate =>
          obtain ⟨-, rfl⟩ := PrivateState.clearFlag_of_on hon
          exact hnone
      | execute i fresh =>
          cases hon
          rw [PrivateState.inFlight_execute, hnone]
      | deliver i =>
          cases hon
          cases hout : s.outputs[i]? with
          | none =>
              unfold PrivateState.deliver
              rw [hout]
              exact hnone
          | some out =>
              have hcount : s.inFlight .checkHealth = _ := PrivateState.inFlight_deliver hout
              omega
      | abort executed i =>
          cases hon
          have hfewer := (s.lost i executed).inFlight_le .checkHealth
          omega

/-- Queueing a check writes no reserve. -/
theorem reserves_of_check {ev : PrivateEvent} {circuit : Circuit}
    (hix : ix.privateEvent = some (key, ev)) (hcircuit : circuit ∈ ev.circuit)
    (hkind : circuit.kind = .checkHealth) : ix.reserves = [] := by
  cases ix <;> cases hix <;> cases hcircuit <;> first | rfl | cases hkind

/-- The two conditions together keep every check in flight true. -/
theorem Watched.tx (hw : Watched mxe key w) (hfair : ChecksFairly mxe key w ix)
    (hspare : SparesChecked key w ix) : Watched mxe key (w.tx mxe ix) := by
  rcases tx_privates mxe w ix key with hsame | ⟨ev, s', hix, hon, hs'⟩
  · -- nothing happens to this private obligation
    have haccount : (w.tx mxe ix).account key = w.account key := by
      rw [account, loadOrInit, hsame]
      rfl
    unfold Watched
    rw [haccount]
    rcases Nat.eq_zero_or_pos ((w.account key).inFlight .checkHealth) with hnone | hsome
    · exact .inl hnone
    · obtain ⟨-, hc, hb⟩ := hspare hsome
      have hwatch := hw.resolve_left hsome.ne'
      exact .inr (hwatch.still (still_tx hc hb rfl rfl rfl rfl) rfl rfl)
  · unfold Watched
    rw [account_eq hs']
    by_cases hcheck : ∃ circuit ∈ ev.circuit, circuit.kind = .checkHealth
    · obtain ⟨circuit, hcircuit, hkind⟩ := hcheck
      obtain ⟨hquiet, hfair⟩ := hfair _ hix rfl circuit hcircuit hkind
      -- whatever was in flight before is watched
      have hwatch : w.Watch mxe (w.account key) := hw.elim (.of_noUpdate · hquiet) id
      have hnone : ix.reserves = [] := reserves_of_check hix hcircuit hkind
      right
      apply hwatch.on hon
      · intro circuit' hcircuit'
        obtain rfl := Option.some.inj (hcircuit.symm.trans hcircuit')
        exact ⟨hkind, hfair⟩
      · rw [hnone]
        exact List.not_mem_nil
      · rw [hnone]
        exact List.not_mem_nil
    · push Not at hcheck
      rcases Nat.eq_zero_or_pos ((w.account key).inFlight .checkHealth) with hnone | hsome
      · exact .inl (inFlight_on_eq_zero hnone hon hcheck)
      · obtain ⟨hkinds, hc, hb⟩ := hspare hsome
        have hwatch := hw.resolve_left hsome.ne'
        right
        apply hwatch.on hon _ hc hb
        intro circuit hcircuit
        exact absurd (hkinds _ hix rfl circuit hcircuit) (hcheck circuit hcircuit)

theorem Watched.flagTrue (hw : Watched mxe key w) : FlagTrue mxe key w ix := by
  intro i s _ hs hout
  unfold Watched at hw
  rw [account_eq hs] at hw
  have hmem : Output.checkHealth false ∈ s.outputs := List.mem_of_getElem? hout
  rcases hw with hnone | hwatch
  · have hcount := (List.countP_eq_zero.mp (Nat.add_eq_zero_iff.mp hnone).2) _ hmem
    exact absurd rfl hcount
  · obtain ⟨b, hb, htrue⟩ := hwatch.outputs _ hmem
    cases hb
    exact htrue rfl

/-- In a run where the checks of a private obligation are queued with fair arguments and no update
in flight, and nothing overtakes them, a callback sets the flag only on a position that is
underwater by the reserves of that moment. -/
theorem flagTrue_run (mxe : Mxe) (clock : Clock) (key : Pubkey) (ixs : List Instruction)
    (hfair : EachStep (tx mxe) (ChecksFairly mxe key) (genesis clock) ixs)
    (hspare : EachStep (tx mxe) (SparesChecked key) (genesis clock) ixs) :
    EachStep (tx mxe) (FlagTrue mxe key) (genesis clock) ixs := by
  have hstart : Watched mxe key (genesis clock) := .inl rfl
  have hkeep : ∀ w ix, Watched mxe key w → ChecksFairly mxe key w ix ∧ SparesChecked key w ix →
      Watched mxe key (w.tx mxe ix) := fun _ _ hw hq => hw.tx hq.1 hq.2
  apply eachStep_of_eachStep hkeep _ ixs _ hstart (hfair.and hspare)
  intro w ix hw _
  exact hw.flagTrue

/-! ## Decided on concrete runs -/

instance decidableFair (p : PrivatePosition) (c b : Reserve)
    (rate collateralPrice borrowPrice ltv : U64) :
    Decidable (p.Fair c b rate collateralPrice borrowPrice ltv) :=
  inferInstanceAs (Decidable (_ ∧ _ ∧ _ ∧ _))

instance decidableNoUpdate (s : PrivateState) : Decidable s.NoUpdate :=
  inferInstanceAs (Decidable (_ ∧ _))

instance decidableFairCheck (mxe : Mxe) (w : World) (s : PrivateState) :
    (circuit : Circuit) → Decidable (w.FairCheck mxe s circuit)
  | .checkHealth rate cprice bprice ltv => inferInstanceAs (Decidable (∃ q ∈ w.backing s,
      (s.position mxe).Fair q.1 q.2 rate cprice bprice ltv))
  | .initPosition | .addCollateral _ | .addBorrow _ => .isFalse id

instance decidableChecksFairly (mxe : Mxe) (key : Pubkey) (w : World) (ix : Instruction) :
    Decidable (ChecksFairly mxe key w ix) :=
  inferInstanceAs (Decidable (∀ p ∈ ix.privateEvent, p.1 = key → ∀ circuit ∈ p.2.circuit,
    circuit.kind = .checkHealth →
      (w.account key).NoUpdate ∧ w.FairCheck mxe (w.account key) circuit))

instance decidableSparesChecked (key : Pubkey) (w : World) (ix : Instruction) :
    Decidable (SparesChecked key w ix) :=
  inferInstanceAs (Decidable (_ → _ ∧ _ ∧ _))

/-- The second user deposits and borrows privately and encrypts `c` and `d` for it; somebody has
the position checked with a collateral price of `price` cents. -/
def checkedRun (c d price : U64) : List Instruction :=
  openPool ++ join 1 ++ join 2 ++
    [.initPrivateObligation (.key 2) poolMarket secondPrivate,
      .executeComputation secondPrivate 0 1, .callback secondPrivate 0,
      .privateDepositCollateral { collateralOf 2 with privateObligation := secondPrivate } 100
        (plainAmount c), .executeComputation secondPrivate 0 2, .callback secondPrivate 0,
      .privateBorrow { debtOf 2 with privateObligation := secondPrivate } 100 (plainAmount d),
      .executeComputation secondPrivate 0 3, .callback secondPrivate 0,
      .privateCheckLiquidatable (.key 3) poolMarket (.key 2) secondPrivate 10000 price 100 8000,
      .executeComputation secondPrivate 0 4]

/-- Ten tokens at a threshold of 80% against a hundred: flagged with reason. -/
theorem flagTrue_run_underwater :
    EachStep (tx plainMxe) (FlagTrue plainMxe secondPrivate) (genesis ⟨0, 0⟩)
      (checkedRun 10 100 100 ++ [.callback secondPrivate 0]) :=
  flagTrue_run plainMxe ⟨0, 0⟩ secondPrivate _ (by decide +kernel) (by decide +kernel)

instance decidableUnderwater (mxe : Mxe) (w : World) (s : PrivateState) :
    Decidable (w.Underwater mxe s) :=
  inferInstanceAs (Decidable (∃ q ∈ w.backing s,
    (s.position mxe).collateralValue q.1 < (s.position mxe).debtValue q.2))

def misquotedWorld : World := (checkedRun 1000 100 0).foldl (tx plainMxe) (genesis ⟨0, 0⟩)

/-- A thousand tokens against a hundred, flagged at a price of zero. -/
theorem not_forall_flagTrue :
    ¬ ∀ (mxe : Mxe) (clock : Clock) (key : Pubkey) (ixs : List Instruction),
        EachStep (tx mxe) (FlagTrue mxe key) (genesis clock) ixs := by
  intro hall
  have hrun := hall plainMxe ⟨0, 0⟩ secondPrivate
    (checkedRun 1000 100 0 ++ [.callback secondPrivate 0])
  have hlast : FlagTrue plainMxe secondPrivate misquotedWorld (.callback secondPrivate 0) :=
    hrun.last
  have hflag : (misquotedWorld.privates secondPrivate).any (fun s =>
      s.outputs[0]? = some (.checkHealth false) ∧ ¬ misquotedWorld.Underwater plainMxe s) =
        true := by decide +kernel
  obtain ⟨s, hs, hflag⟩ := (Option.any_eq_true _ _).mp hflag
  obtain ⟨hout, hhealthy⟩ := of_decide_eq_true hflag
  exact hhealthy (hlast 0 s rfl hs hout)

end World

end VeilVault
