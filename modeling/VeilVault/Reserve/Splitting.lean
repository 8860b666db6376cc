/-
# VeilVault.Reserve.Splitting — the same amount in parts.

Every conversion rounds down in favour of the pool, so an amount paid in or cashed in by parts gets
at most what it gets at once: a part that loses to the rounding leaves more for everyone, and the
one who split holds only a part of everyone's shares.  Two redemptions that change places move each
other by one atomic unit at most.
-/
import VeilVault.Reserve.RoundTrip

namespace VeilVault

open Kit

namespace Reserve

variable {r r₁ r₂ : Reserve} {a c x : U64} {n : ℕ}

/-- One call after another, and the sum of what they returned. -/
def inTurn (call : Reserve → U64 → Result (Reserve × U64)) :
    Reserve → List U64 → Result (Reserve × ℕ)
  | r, [] => return (r, 0)
  | r, a :: as => do
      let (r, x) ← call r a
      let (r, n) ← inTurn call r as
      return (r, x.toNat + n)

/-- The atomic units in a list of amounts. -/
def units (as : List U64) : List ℕ := as.map (·.toNat)

theorem inTurn_cons_ok {call : Reserve → U64 → Result (Reserve × U64)} {as : List U64} :
    inTurn call r (a :: as) = .ok (r₂, n) ↔
      ∃ r₁ x k, call r a = .ok (r₁, x) ∧ inTurn call r₁ as = .ok (r₂, k) ∧ n = x.toNat + k := by
  simp only [inTurn, bind_eq_ok, pure_eq_ok, Prod.exists, Prod.mk.injEq]
  constructor
  · rintro ⟨r₁, x, hx, r', k, hk, rfl, rfl⟩
    exact ⟨r₁, x, k, hx, hk, rfl⟩
  · rintro ⟨r₁, x, k, hx, hk, rfl⟩
    exact ⟨r₁, x, hx, r₂, k, hk, rfl, rfl⟩

/-! ## Deposits -/

/-- Deposits that succeed mint what the pool issues for the parts. -/
theorem minted_inTurn (as : List U64) : ∀ (r r₂ : Reserve) (n : ℕ), r.pool.Solvent →
    0 < r.pool.shares → inTurn depositLiquidity r as = .ok (r₂, n) →
    n = r.pool.mintedFor (units as) := by
  induction as with
  | nil =>
      intro r r₂ n _ _ hrun
      cases hrun
      rfl
  | cons a as ih =>
      intro r r₂ n hcovered hpos hrun
      obtain ⟨r₁, x, k, hd, hrest, rfl⟩ := inTurn_cons_ok.mp hrun
      -- a deposit that succeeds has read the total supply
      obtain ⟨⟨t, ht, -⟩, -⟩ := depositLiquidity_ok hd
      have h : r.Solvent := ⟨⟨t, ht⟩, hcovered⟩
      have hpool := h.pool_payIn hpos hd
      have hlater := ih r₁ r₂ k (hpool ▸ (SharePool.payIn_step hpos _).solvent hcovered)
        (hpool ▸ Nat.add_pos_left hpos _) hrest
      rw [h.minted hpos hd, hlater, hpool]
      rfl

/-- Deposits within the limit all succeed while the sums they are added to stay in their words. -/
theorem exists_inTurn_deposit (as : List U64) : ∀ r : Reserve, r.Solvent → 0 < r.pool.shares →
    r.pool.assets + (units as).sum ≤ r.config.depositLimit.toNat →
    r.liquidity.availableAmount.toNat + (units as).sum < 2 ^ 64 →
    r.held + (units as).sum < 2 ^ 128 → ∃ r₂ n, inTurn depositLiquidity r as = .ok (r₂, n) := by
  induction as with
  | nil => exact fun r _ _ _ _ _ => ⟨r, 0, rfl⟩
  | cons a as ih =>
      intro r h hpos hlimit hroom hfit
      rw [units, List.map_cons, List.sum_cons, ← units] at hlimit hroom hfit
      obtain ⟨r₁, x, hd⟩ := h.exists_depositLiquidity (a := a) hpos (by omega) (by omega)
      have h₁ := h.depositLiquidity hpos hd (by omega)
      obtain ⟨hassets, hshares, -⟩ := pool_depositLiquidity hd
      obtain ⟨-, -, v, m, hv, -, rfl⟩ := depositLiquidity_ok hd
      have hheld : r.held = r.liquidity.availableAmount.toNat +
        r.liquidity.borrowedAmountSf.toNat := rfl
      obtain ⟨r₂, k, hrest⟩ := ih _ h₁ (by omega)
        (by rw [hassets]; show _ ≤ r.config.depositLimit.toNat; omega)
        (by show v.toNat + _ < _; omega)
        (by show v.toNat + r.liquidity.borrowedAmountSf.toNat + _ < _; omega)
      exact ⟨r₂, _, inTurn_cons_ok.mpr ⟨_, x, k, hd, hrest, rfl⟩⟩

/-- Deposits by parts mint at most what one deposit of their sum mints. -/
theorem minted_parts {as : List U64} {m : U64} (h : r.Solvent) (hpos : 0 < r.pool.shares)
    (hsum : a.toNat = (units as).sum) (hd : r.depositLiquidity a = .ok (r₁, m))
    (hrun : inTurn depositLiquidity r as = .ok (r₂, n)) : n ≤ m.toNat := by
  have hassets : 0 < r.pool.assets := Nat.lt_of_lt_of_le hpos h.covered
  rw [minted_inTurn as r r₂ n h.covered hpos hrun, h.minted hpos hd, hsum]
  exact SharePool.mintedFor_le _ _ hassets

/-- They can all be made when the total supply after the single one can still be computed. -/
theorem exists_deposit_parts {as : List U64} {m : U64} {t₁ : U128} (h : r.Solvent)
    (hpos : 0 < r.pool.shares) (hsum : a.toNat = (units as).sum)
    (hd : r.depositLiquidity a = .ok (r₁, m)) (ht₁ : r₁.liquidity.totalSupply = .ok t₁) :
    ∃ r₂ n, inTurn depositLiquidity r as = .ok (r₂, n) := by
  have hlimit := within_depositLimit hd
  obtain ⟨-, -, v, m', hv, -, rfl⟩ := depositLiquidity_ok hd
  obtain ⟨hheld, -⟩ := ReserveLiquidity.totalSupply_ok.mp ht₁
  simp only at hheld
  have hword := v.isLt
  refine exists_inTurn_deposit as r h hpos (hsum ▸ hlimit) (by omega) ?_
  rw [held]
  omega

/-! ## Redemptions -/

/-- Redemptions all succeed when the vault has what the pool owes for the parts, and that is what
they pay. -/
theorem exists_inTurn_redeem (cs : List U64) : ∀ r : Reserve, r.Solvent →
    (units cs).sum ≤ r.pool.shares → (units cs).sum * r.pool.assets < 2 ^ 128 →
    r.pool.paidFor (units cs) ≤ r.liquidity.availableAmount.toNat →
    ∃ r₂, inTurn redeemCollateral r cs = .ok (r₂, r.pool.paidFor (units cs)) := by
  induction cs with
  | nil => exact fun r _ _ _ _ => ⟨r, rfl⟩
  | cons c cs ih =>
      intro r h hsum hfit hroom
      rw [units, List.map_cons, ← units] at *
      rw [List.sum_cons] at hsum hfit
      have hparts : r.pool.paidFor (c.toNat :: units cs) =
        r.pool.assetsFor c.toNat + (r.pool.cashIn c.toNat).paidFor (units cs) := rfl
      -- what is in the vault is a `u64`, so nothing that is there is cut
      have hword := r.liquidity.availableAmount.isLt
      have hwhole : r.pool.assetsFor c.toNat % 2 ^ 64 = r.pool.assetsFor c.toNat :=
        Nat.mod_eq_of_lt (by omega)
      have hfirst : c.toNat * r.pool.assets < 2 ^ 128 :=
        (Nat.mul_le_mul_right _ (Nat.le_add_right _ _)).trans_lt hfit
      obtain ⟨r₁, l, hd⟩ := h.exists_redeemCollateral (c := c) (by omega) hfirst (by omega)
      have hl : l.toNat = r.pool.assetsFor c.toNat := (h.paid hd).trans hwhole
      obtain ⟨h₁, hpool, havailable⟩ := h.redeemCollateral hd
      have hcash : r₁.pool = r.pool.cashIn c.toNat := by rw [hpool, hl, SharePool.cashIn]
      obtain ⟨r₂, hrest⟩ := ih r₁ h₁
        (by rw [hpool]; show _ ≤ r.pool.shares - c.toNat; omega)
        (by
          rw [hpool]
          exact (Nat.mul_le_mul (Nat.le_add_left _ _) (Nat.sub_le _ _)).trans_lt hfit)
        (by rw [hcash]; omega)
      refine ⟨r₂, inTurn_cons_ok.mpr ⟨r₁, l, _, hd, hrest, ?_⟩⟩
      rw [hparts, hl, hcash]

/-- The amount due for `c` cTokens is not cut to 64 bits. -/
def ConversionFits (r : Reserve) (c : U64) : Prop := r.pool.assetsFor c.toNat < 2 ^ 64

instance decidableConversionFits (r : Reserve) (c : U64) : Decidable (r.ConversionFits c) :=
  inferInstanceAs (Decidable (_ < _))

theorem Solvent.paid_whole (h : r.Solvent) (hd : r.redeemCollateral c = .ok (r₁, x))
    (hfit : r.ConversionFits c) : x.toNat = r.pool.assetsFor c.toNat :=
  (h.paid hd).trans (Nat.mod_eq_of_lt hfit)

/-- Redemptions by parts can all be made when the single one can, and pay at most as much. -/
theorem redeem_parts {cs : List U64} {l : U64} (h : r.Solvent) (hpos : 0 < r.pool.shares)
    (hsum : c.toNat = (units cs).sum) (hc : c ≤ r.collateral.mintTotalSupply)
    (hfit : r.ConversionFits c) (hd : r.redeemCollateral c = .ok (r₁, l)) :
    ∃ r₂ n, inTurn redeemCollateral r cs = .ok (r₂, n) ∧ n ≤ l.toNat := by
  have hle : (units cs).sum ≤ r.pool.shares := hsum ▸ BitVec.le_def.mp hc
  have hpaid := h.paid_whole hd hfit
  rw [hsum] at hpaid
  have hparts := SharePool.paidFor_le hpos hle
  obtain ⟨-, -, havailable⟩ := h.redeemCollateral hd
  obtain ⟨r₂, hrun⟩ := exists_inTurn_redeem cs r h hle (hsum ▸ h.product_lt hd) (by omega)
  exact ⟨r₂, _, hrun, hpaid ▸ hparts⟩

/-- A redemption that comes after another pays what it would have paid before it, or one unit
more. -/
theorem Solvent.redeem_second {l k : U64} (h : r.Solvent) (hpos : 0 < r.pool.shares)
    (hsum : c.toNat + a.toNat ≤ r.pool.shares)
    (hd : r.redeemCollateral a = .ok (r₁, x)) (hfit : r.ConversionFits a)
    (hl : l.toNat = r.pool.assetsFor c.toNat) (hk : k.toNat = r₁.pool.assetsFor c.toNat) :
    l ≤ k ∧ k.toNat ≤ l.toNat + 1 := by
  obtain ⟨-, hpool, -⟩ := h.redeemCollateral hd
  have hcash : r₁.pool = r.pool.cashIn a.toNat := by
    rw [hpool, h.paid_whole hd hfit, SharePool.cashIn]
  have hlow := SharePool.assetsFor_le_cashIn hpos hsum
  have hhigh := SharePool.assetsFor_cashIn_le hpos hsum
  rw [← hcash, ← hk, ← hl] at hlow hhigh
  exact ⟨BitVec.le_def.mpr hlow, hhigh⟩

/-! ## No advantage -/

/-- Parts and order bring nothing.  The deposits can all be made when the total supply after the
single one can still be computed; the redemptions can whenever the single one can. -/
theorem inTurn_le {t : U128} (ht : r.liquidity.totalSupply = .ok t)
    (hissued : 0 < r.collateral.mintTotalSupply)
    (hcovered : r.collateral.mintTotalSupply.toNat ≤ t.toNat) :
    (∀ (as : List U64) (a m : U64) (r₁ : Reserve), a.toNat = (units as).sum →
      r.depositLiquidity a = .ok (r₁, m) →
        (∀ r₂ n, inTurn depositLiquidity r as = .ok (r₂, n) → n ≤ m.toNat) ∧
        ((∃ t₁, r₁.liquidity.totalSupply = .ok t₁) →
          ∃ r₂ n, inTurn depositLiquidity r as = .ok (r₂, n))) ∧
    (∀ (cs : List U64) (c l : U64) (r₁ : Reserve), c.toNat = (units cs).sum →
      c ≤ r.collateral.mintTotalSupply → r.ConversionFits c →
      r.redeemCollateral c = .ok (r₁, l) →
        ∃ r₂ n, inTurn redeemCollateral r cs = .ok (r₂, n) ∧ n ≤ l.toNat) ∧
    (∀ (c₁ c₂ l₁ l₂ k₁ k₂ : U64) (r₁ r₁₂ r₂ r₂₁ : Reserve),
      c₁.toNat + c₂.toNat ≤ r.collateral.mintTotalSupply.toNat →
      r.redeemCollateral c₁ = .ok (r₁, l₁) → r₁.redeemCollateral c₂ = .ok (r₁₂, l₂) →
      r.redeemCollateral c₂ = .ok (r₂, k₂) → r₂.redeemCollateral c₁ = .ok (r₂₁, k₁) →
      r.ConversionFits c₁ → r₁.ConversionFits c₂ → r.ConversionFits c₂ → r₂.ConversionFits c₁ →
        (l₁ ≤ k₁ ∧ k₁.toNat ≤ l₁.toNat + 1) ∧ (k₂ ≤ l₂ ∧ l₂.toNat ≤ k₂.toNat + 1)) := by
  have h : r.Solvent := ⟨⟨t, ht⟩, hcovered.trans_eq (toNat_totalSupply ht)⟩
  have hpos : 0 < r.pool.shares := BitVec.lt_def.mp hissued
  refine ⟨?_, ?_, ?_⟩
  · intro as a m r₁ hsum hd
    exact ⟨fun r₂ n hrun => minted_parts h hpos hsum hd hrun,
      fun ⟨t₁, ht₁⟩ => exists_deposit_parts h hpos hsum hd ht₁⟩
  · intro cs c l r₁ hsum hc hfit hd
    exact redeem_parts h hpos hsum hc hfit hd
  · intro c₁ c₂ l₁ l₂ k₁ k₂ r₁ r₁₂ r₂ r₂₁ hsum h₁ h₁₂ h₂ h₂₁ hfit₁ hfit₁₂ hfit₂ hfit₂₁
    have hsolvent₁ := (h.redeemCollateral h₁).1
    have hsolvent₂ := (h.redeemCollateral h₂).1
    exact ⟨h.redeem_second hpos hsum h₂ hfit₂ (h.paid_whole h₁ hfit₁)
        (hsolvent₂.paid_whole h₂₁ hfit₂₁),
      h.redeem_second hpos (Nat.add_comm c₂.toNat _ ▸ hsum) h₁ hfit₁ (h.paid_whole h₂ hfit₂)
        (hsolvent₁.paid_whole h₁₂ hfit₁₂)⟩

/-- Three deposits for one, three redemptions for one, and two redemptions the other way round. -/
theorem inTurn_le_accrued : ∃ (r₁ r₂ r₃ r₄ r₅ r₆ r₇ r₈ : Reserve) (m l l₁ l₂ k₁ k₂ : U64) (n k : ℕ),
    accruedReserve.depositLiquidity 500 = .ok (r₁, m) ∧
      inTurn depositLiquidity accruedReserve [199, 1, 300] = .ok (r₂, n) ∧ n ≤ m.toNat ∧
    accruedReserve.redeemCollateral 300 = .ok (r₃, l) ∧
      inTurn redeemCollateral accruedReserve [99, 1, 200] = .ok (r₄, k) ∧ k ≤ l.toNat ∧
    accruedReserve.redeemCollateral 99 = .ok (r₅, l₁) ∧
      r₅.redeemCollateral 200 = .ok (r₆, l₂) ∧
      accruedReserve.redeemCollateral 200 = .ok (r₇, k₂) ∧
      r₇.redeemCollateral 99 = .ok (r₈, k₁) ∧
      (l₁ ≤ k₁ ∧ k₁.toNat ≤ l₁.toNat + 1) ∧ (k₂ ≤ l₂ ∧ l₂.toNat ≤ k₂.toNat + 1) := by
  have hok : (accruedReserve.liquidity.totalSupply.toOption.any fun t =>
      accruedReserve.collateral.mintTotalSupply.toNat ≤ t.toNat &&
        (accruedReserve.depositLiquidity 500).toOption.any fun p =>
          p.1.liquidity.totalSupply.toOption.any fun _ =>
            (accruedReserve.redeemCollateral 300).toOption.any fun _ => true) = true := by
    decide
  have hswap : ((accruedReserve.redeemCollateral 99).toOption.any fun p =>
      (p.1.redeemCollateral 200).toOption.any fun _ =>
        (accruedReserve.redeemCollateral 200).toOption.any fun q =>
          (q.1.redeemCollateral 99).toOption.any fun _ =>
            p.1.ConversionFits 200 && q.1.ConversionFits 99) = true := by
    decide
  obtain ⟨t, ht, hok⟩ := toOption_any.mp hok
  obtain ⟨hcovered, hok⟩ := Bool.and_eq_true_iff.mp hok
  obtain ⟨⟨r₁, m⟩, hd, hok⟩ := toOption_any.mp hok
  obtain ⟨t₁, ht₁, hok⟩ := toOption_any.mp hok
  obtain ⟨⟨r₃, l⟩, hr, -⟩ := toOption_any.mp hok
  obtain ⟨⟨r₅, l₁⟩, h₅, hswap⟩ := toOption_any.mp hswap
  obtain ⟨⟨r₆, l₂⟩, h₆, hswap⟩ := toOption_any.mp hswap
  obtain ⟨⟨r₇, k₂⟩, h₇, hswap⟩ := toOption_any.mp hswap
  obtain ⟨⟨r₈, k₁⟩, h₈, hfits⟩ := toOption_any.mp hswap
  obtain ⟨hfit₅, hfit₇⟩ := Bool.and_eq_true_iff.mp hfits
  obtain ⟨hdeposits, hredeems, hswaps⟩ :=
    inTurn_le ht (by decide) (of_decide_eq_true hcovered)
  obtain ⟨hle, hrun⟩ := hdeposits [199, 1, 300] 500 m r₁ (by decide) hd
  obtain ⟨r₂, n, hn⟩ := hrun ⟨t₁, ht₁⟩
  obtain ⟨r₄, k, hk, hkl⟩ := hredeems [99, 1, 200] 300 l r₃ (by decide) (by decide)
    (by decide) hr
  exact ⟨r₁, r₂, r₃, r₄, r₅, r₆, r₇, r₈, m, l, l₁, l₂, k₁, k₂, n, k, hd, hn, hle r₂ n hn, hr, hk,
    hkl, h₅, h₆, h₇, h₈, hswaps 99 200 l₁ l₂ k₁ k₂ r₅ r₆ r₇ r₈ (by decide) h₅ h₆ h₇ h₈
      (by decide) (of_decide_eq_true hfit₅)
      (by decide) (of_decide_eq_true hfit₇)⟩

end Reserve

end VeilVault
