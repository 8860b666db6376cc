/-
# VeilVault.World.Savings — what a saver's cTokens are worth.

Whatever an instruction does to a reserve is a configuration, or an accrual and a move, and each of
these is a step of the share pool (`ReserveChange.advances`).  A pool's rate survives its steps only
while there are shares.  A saver who keeps a cToken sees to that: the cTokens in one account are
among those the reserve records, so the pool is never emptied between two looks at the account, and
its worth does not fall (`savings_grow`).
-/
import VeilVault.World.Payouts
import VeilVault.World.Sovereignty

namespace VeilVault

open Kit Kit.Outcome

namespace Reserve

variable {r r' : Reserve}

theorem Move.advances (h : r.Move r') (hr : r.Sound) : Advances r r' := by
  cases h with
  | stay | price => exact hr.stay hr.feeRate rfl rfl rfl
  | deposit h => exact hr.depositLiquidity h
  | redeem h => exact hr.redeemCollateral h
  | borrow h => exact hr.borrow h
  | repay h => exact hr.repay h

/-- The same reserve, its cTokens worth no less. -/
structure Appreciates (r r' : Reserve) : Prop where
  sound : r'.Sound
  noWorse : 0 < r.collateral.mintTotalSupply.toNat → r.pool.NoWorse r'.pool

theorem Sound.appreciates (h : r.Sound) : Appreciates r r := ⟨h, fun _ => Nat.le_refl _⟩

theorem Advances.appreciates (h : Advances r r') : Appreciates r r' :=
  ⟨h.sound, fun hpos => h.step.noWorse hpos⟩

/-- An accrual leaves the shares as they are, so the rate carries over to the move. -/
theorem appreciates_of_accrued {r₁ : Reserve} {s : U64} (hr : r.Sound)
    (hacc : r.accrueInterest s = .ok r₁) (hmove : r₁.Move r') : Appreciates r r' := by
  have hfirst := hr.accrueInterest hacc
  have hsecond := hmove.advances hfirst.sound
  refine ⟨hsecond.sound, fun hpos => ?_⟩
  have hpos₁ : 0 < r₁.pool.shares := by
    show 0 < r₁.collateral.mintTotalSupply.toNat
    rw [(accrues_of_ok hacc).collateral]
    exact hpos
  exact (hfirst.step.noWorse hpos).trans (hsecond.step.noWorse hpos₁) hpos₁

theorem Appreciates.trans {r'' : Reserve} (h : Appreciates r r')
    (hpos : 0 < r'.collateral.mintTotalSupply.toNat) (h' : Appreciates r' r'') :
    Appreciates r r'' :=
  ⟨h'.sound, fun hp => (h.noWorse hp).trans (h'.noWorse hpos) hpos⟩

end Reserve

namespace World

variable {mxe : Mxe} {w w' : World} {ix : Instruction} {k : Pubkey} {r r' : Reserve}

theorem ReserveChange.appreciates (h : w.ReserveChange ix k r r') (hr : w.reserves k = some r)
    (hsound : r.Sound) : r.Appreciates r' := by
  rcases h.steps hr with ⟨owner, M, mint, config, m, -, -, -, hupdate⟩ | ⟨r₁, hacc, hmove⟩
  · simp only [Reserve.updateConfig, ReserveConfig.init, bind_eq_ok, pure_eq_ok] at hupdate
    obtain ⟨c, ⟨⟨⟩, hc, rfl⟩, rfl⟩ := hupdate
    exact (hsound.updateConfig hc).appreciates
  · exact Reserve.appreciates_of_accrued hsound hacc hmove

/-- Every reserve is a sound pool. -/
def Pooled (w : World) : Prop := ∀ k r, w.reserves k = some r → r.Sound

theorem Pooled.exec (hw : w.Pooled) (h : w.exec mxe ix = .ok w') : w'.Pooled := by
  intro k r' hr'
  rcases exec_reserve h k with hsame | ⟨q, hcreates, hq⟩ | ⟨r, q, hr, hchange, hq⟩
  · exact hw k r' (hsame.symm.trans hr')
  · cases hq.symm.trans hr'
    obtain ⟨a, config, m, -, -, -, -, -, -, hcreate⟩ := hcreates
    exact Reserve.sound_create hcreate
  · cases hq.symm.trans hr'
    exact (hchange.appreciates hr (hw k r hr)).sound

theorem pooled_run (mxe : Mxe) (clock : Clock) (ixs : List Instruction) :
    (ixs.foldl (tx mxe) (genesis clock)).Pooled := by
  have hstart : (genesis clock).Pooled := nofun
  exact run_invariant ixs hstart fun _ _ _ _ hv h => hv.exec h

theorem exec_appreciates (hw : w.Pooled) (hr : w.reserves k = some r)
    (h : w.exec mxe ix = .ok w') : ∃ r', w'.reserves k = some r' ∧ r.Appreciates r' := by
  obtain ⟨r', hr', rfl | hchange⟩ := exec_reserve_at h hr
  · exact ⟨r', hr', (hw k r' hr).appreciates⟩
  · exact ⟨r', hr', hchange.appreciates hr (hw k r hr)⟩

theorem Sound.exec (hw : w.Sound) (ha : w.Addressed) (h : w.exec mxe ix = .ok w') : w'.Sound :=
  ⟨hw.linked.exec ha h, (exec_step h).backed hw.backed, (exec_calls h).conserved hw.conserved⟩

/-- The cTokens in one account are among those the reserve records. -/
theorem Sound.amount_le {x : Pubkey} {a : TokenAccount Pubkey} (hw : w.Sound)
    (hr : w.reserves k = some r) (ha : w.tokens.accounts x = some a)
    (hmint : a.mint = .collateralMint k) :
    a.amount.toNat ≤ r.collateral.mintTotalSupply.toNat := by
  have hle := (hw.covers_held hr).le x
  rwa [TokenLedger.held_eq (hmint ▸ TokenLedger.mintOf_of ha), TokenLedger.balance_of ha] at hle

/-- A saver's cTokens are worth no less later than now, whatever is run without the saver's
signature. -/
theorem savings_grow (mxe : Mxe) (clock : Clock) (ixs later : List Instruction) (w : World)
    (k x u : Pubkey) (r : Reserve) (a : TokenAccount Pubkey)
    (hrun : ixs.foldl (tx mxe) (genesis clock) = w) (hr : w.reserves k = some r)
    (ha : w.tokens.accounts x = some a) (hmint : a.mint = .collateralMint k)
    (hown : a.authority = u) (hu : u.isWallet = true) (hno : ∀ ix ∈ later, ix.signer ≠ some u) :
    ∃ r' n, (later.foldl (tx mxe) w).reserves k = some r' ∧
      (later.foldl (tx mxe) w).tokens.accounts x = some { a with amount := n } ∧
      a.amount.toNat * r.liquidity.totalSupplyOrZero.toNat / r.collateral.mintTotalSupply.toNat ≤
        n.toNat * r'.liquidity.totalSupplyOrZero.toNat / r'.collateral.mintTotalSupply.toNat := by
  have hw : w.Sound := hrun ▸ sound_run mxe clock ixs
  have haddressed : w.Addressed := hrun ▸ addressed_run mxe clock ixs
  have hpooled : w.Pooled := hrun ▸ pooled_run mxe clock ixs
  let Inv : World → Prop := fun v => v.Sound ∧ v.Addressed ∧ v.Pooled ∧
    w.tokens.Spared u v.tokens ∧ ∃ r', v.reserves k = some r' ∧
      (0 < a.amount.toNat → r.Appreciates r')
  have hstart : Inv w := ⟨hw, haddressed, hpooled, TokenLedger.spared_refl _ _, r, hr,
    fun _ => (hpooled k r hr).appreciates⟩
  have hlater : Inv (later.foldl (tx mxe) w) := by
    apply run_invariant later hstart
    rintro ix hix v v' ⟨hv, hva, hvp, hspared, r₁, hr₁, hworth⟩ h
    obtain ⟨r', hr', hstep⟩ := exec_appreciates hvp hr₁ h
    refine ⟨hv.exec hva h, hva.exec h, hvp.exec h,
      hspared.trans ((exec_calls h).spared (not_signed_of_signer hu (hno ix hix) h)), r', hr',
      fun hpos => ?_⟩
    -- the saver's own tokens keep the pool from running empty
    obtain ⟨n, hn, hle⟩ := hspared.accounts x a ha hown
    have hheld := hv.amount_le hr₁ hn hmint
    exact (hworth hpos).trans (Nat.lt_of_lt_of_le hpos (hle.trans hheld)) hstep
  obtain ⟨hv, -, hvp, hspared, r', hr', hworth⟩ := hlater
  obtain ⟨n, hn, hle⟩ := hspared.accounts x a ha hown
  refine ⟨r', n, hr', hn, ?_⟩
  rcases Nat.eq_zero_or_pos a.amount.toNat with hzero | hpos
  · rw [hzero, Nat.zero_mul, Nat.zero_div]
    exact Nat.zero_le _
  · have hgrown := hworth hpos
    have hshares := Nat.lt_of_lt_of_le hpos (hle.trans (hv.amount_le hr' hn hmint))
    rw [(hpooled k r hr).totalSupplyOrZero, hgrown.sound.totalSupplyOrZero]
    exact (hgrown.noWorse (Nat.lt_of_lt_of_le hpos (hw.amount_le hr ha hmint))).assetsFor_le
      hshares hle

/-- The first user's cTokens, while others act. -/
theorem savings_grow_joined : ∃ (r r' : Reserve) (n : U64),
    (reach.foldl (tx plainMxe) joinedWorld).reserves usdReserve = some r' ∧
      5000 * r.liquidity.totalSupplyOrZero.toNat / r.collateral.mintTotalSupply.toNat ≤
        n.toNat * r'.liquidity.totalSupplyOrZero.toNat /
          r'.collateral.mintTotalSupply.toNat := by
  have hsome : (joinedWorld.reserves usdReserve).isSome = true := by decide +kernel
  have hheld : (joinedWorld.tokens.accounts (.key 201)).any (fun a =>
      a.mint = .collateralMint usdReserve ∧ a.authority = .key 1 ∧ a.amount = 5000) = true := by
    decide +kernel
  obtain ⟨r, hr⟩ := Option.isSome_iff_exists.mp hsome
  obtain ⟨a, ha, hfields⟩ := (Option.any_eq_true _ _).mp hheld
  obtain ⟨hmint, hown, hamount⟩ := of_decide_eq_true hfields
  obtain ⟨r', n, hr', -, hle⟩ := savings_grow plainMxe ⟨0, 0⟩ joinedRun reach joinedWorld usdReserve
    (.key 201) (.key 1) r a rfl hr ha hmint hown rfl reach_unsigned
  rw [hamount] at hle
  exact ⟨r, r', n, hr', hle⟩

end World

end VeilVault
