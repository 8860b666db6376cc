/-
# Kit.SharePool — assets held in common, and shares in them.

A pool holds `assets` and has issued `shares`.  Whoever pays in receives at most a proportional
number of shares, whoever cashes in receives at most a proportional amount of assets, and gains go
to everyone.  Every such step, however it rounds, keeps at least one asset per share and never
lowers what a share is worth; the worth is compared by cross-multiplication, so nothing is divided.
-/
import Mathlib.Tactic.Common
import Mathlib.Tactic.Ring

namespace Kit

/-- Assets and the shares issued against them. -/
structure SharePool where
  assets : ℕ
  shares : ℕ

namespace SharePool

/-- Every share is backed by one asset. -/
def Solvent (p : SharePool) : Prop := p.shares ≤ p.assets

/-- A share of `q` is worth at least what a share of `p` is worth. -/
def NoWorse (p q : SharePool) : Prop := p.assets * q.shares ≤ q.assets * p.shares

/-- One step of a pool. -/
inductive Step (p : SharePool) : SharePool → Prop
  /-- The first shares are issued one to one. -/
  | found (a : ℕ) (h : p.shares = 0) : Step p ⟨p.assets + a, p.shares + a⟩
  /-- Pay in `a`, receive at most the proportional number of shares. -/
  | payIn (a m : ℕ) (hpos : 0 < p.shares) (h : m * p.assets ≤ a * p.shares) :
      Step p ⟨p.assets + a, p.shares + m⟩
  /-- Cash in `c` shares for at most the proportional amount of assets. -/
  | cashIn (c l : ℕ) (hpos : 0 < p.shares) (h : l * p.shares ≤ c * p.assets) :
      Step p ⟨p.assets - l, p.shares - c⟩
  | gain (g : ℕ) : Step p ⟨p.assets + g, p.shares⟩

variable {p q : SharePool}

/-- Shares of a solvent pool are issued for at most their number of assets. -/
theorem minted_le {a m : ℕ} (hs : p.Solvent) (hpos : 0 < p.shares)
    (h : m * p.assets ≤ a * p.shares) : m ≤ a := by
  have hle : m * p.shares ≤ a * p.shares := Nat.le_trans (Nat.mul_le_mul_left m hs) h
  exact Nat.le_of_mul_le_mul_right hle hpos

/-- Cashing in all or part of the shares leaves at least the remaining fraction of the assets. -/
theorem remaining_le {c l : ℕ} (h : l * p.shares ≤ c * p.assets) :
    p.assets * (p.shares - c) ≤ (p.assets - l) * p.shares := by
  rw [Nat.mul_sub, Nat.sub_mul]
  have hcomm : p.assets * c = c * p.assets := Nat.mul_comm _ _
  omega

/-- What is cashed in is there. -/
theorem paid_le {c l : ℕ} (hpos : 0 < p.shares) (hc : c ≤ p.shares)
    (h : l * p.shares ≤ c * p.assets) : l ≤ p.assets := by
  apply Nat.le_of_mul_le_mul_right _ hpos
  calc l * p.shares
      ≤ c * p.assets := h
    _ ≤ p.shares * p.assets := Nat.mul_le_mul_right _ hc
    _ = p.assets * p.shares := Nat.mul_comm _ _

theorem Step.noWorse (h : p.Step q) : 0 < p.shares → p.NoWorse q := by
  intro hpos
  cases h with
  | found a hzero => omega
  | payIn a m _ hm =>
      show p.assets * (p.shares + m) ≤ (p.assets + a) * p.shares
      have hcomm : p.assets * m = m * p.assets := Nat.mul_comm _ _
      rw [Nat.mul_add, Nat.add_mul]
      omega
  | cashIn c l _ hl => exact remaining_le hl
  | gain g => exact Nat.mul_le_mul_right _ (Nat.le_add_right _ _)

/-- Through a pool with shares, worth adds up. -/
theorem NoWorse.trans {s : SharePool} (h : p.NoWorse q) (h' : q.NoWorse s) (hpos : 0 < q.shares) :
    p.NoWorse s := by
  apply Nat.le_of_mul_le_mul_right _ hpos
  calc p.assets * s.shares * q.shares
      = p.assets * q.shares * s.shares := Nat.mul_right_comm _ _ _
    _ ≤ q.assets * p.shares * s.shares := Nat.mul_le_mul_right _ h
    _ = q.assets * s.shares * p.shares := Nat.mul_right_comm _ _ _
    _ ≤ s.assets * q.shares * p.shares := Nat.mul_le_mul_right _ h'
    _ = s.assets * p.shares * q.shares := Nat.mul_right_comm _ _ _

theorem Step.solvent (h : p.Step q) : p.Solvent → q.Solvent := by
  intro hs
  cases h with
  | found a _ => exact Nat.add_le_add_right hs a
  | payIn a m hpos hm => exact Nat.add_le_add hs (minted_le hs hpos hm)
  | cashIn c l hpos hl =>
      show p.shares - c ≤ p.assets - l
      -- the remaining fraction of the assets is at least the remaining shares
      have hrest := remaining_le hl
      have hback : p.shares * (p.shares - c) ≤ p.assets * (p.shares - c) :=
        Nat.mul_le_mul_right _ hs
      apply Nat.le_of_mul_le_mul_left _ hpos
      calc p.shares * (p.shares - c)
          ≤ (p.assets - l) * p.shares := Nat.le_trans hback hrest
        _ = p.shares * (p.assets - l) := Nat.mul_comm _ _
  | gain g => exact Nat.le_trans hs (Nat.le_add_right _ _)

/-! ## Paying in and cashing in at once -/

/-- The shares received for `a` buy at most `a` back. -/
theorem roundTrip_le {a m : ℕ} (h : m * p.assets ≤ a * p.shares) :
    m * (p.assets + a) / (p.shares + m) ≤ a := by
  apply Nat.div_le_of_le_mul
  calc m * (p.assets + a)
      = m * p.assets + m * a := Nat.mul_add _ _ _
    _ ≤ a * p.shares + m * a := Nat.add_le_add_right h _
    _ = (p.shares + m) * a := by ring

/-- Shares rounded down lose less than what one was worth, and cashing them in less than one more
asset. -/
theorem roundTrip_lt {a m : ℕ} (hpos : 0 < p.shares)
    (h : a * p.shares < m * p.assets + p.assets) :
    a * p.shares < (m * (p.assets + a) / (p.shares + m) + 1) * p.shares + p.assets := by
  have hback : m * (p.assets + a) < m * (p.assets + a) / (p.shares + m) * (p.shares + m) +
      (p.shares + m) := Nat.lt_div_mul_add (Nat.add_pos_left hpos m)
  generalize m * (p.assets + a) / (p.shares + m) = x at hback ⊢
  rcases Nat.le_total a (x + 1) with hle | hge
  · have hmul : a * p.shares ≤ (x + 1) * p.shares := Nat.mul_le_mul_right _ hle
    have hassets : 0 < p.assets := by
      by_contra hzero
      rw [Nat.eq_zero_of_not_pos hzero] at h
      omega
    omega
  · obtain ⟨k, rfl⟩ := Nat.exists_eq_add_of_le hge
    -- what is missing, `k`, is worth less per share than before the shares were issued
    have hpaid : m * (p.assets + (x + 1 + k)) = m * p.assets + m * (x + 1) + k * m := by ring
    have hx : x * (p.shares + m) + (p.shares + m) = (x + 1) * p.shares + m * (x + 1) := by ring
    have hk : (x + 1 + k) * p.shares = (x + 1) * p.shares + k * p.shares := by ring
    omega

/-! ## Paying in and cashing in, rounded down -/

/-- The proportional number of shares for `a`. -/
def sharesFor (p : SharePool) (a : ℕ) : ℕ := a * p.shares / p.assets

/-- The proportional amount for `c` shares. -/
def assetsFor (p : SharePool) (c : ℕ) : ℕ := c * p.assets / p.shares

def payIn (p : SharePool) (a : ℕ) : SharePool := ⟨p.assets + a, p.shares + p.sharesFor a⟩

def cashIn (p : SharePool) (c : ℕ) : SharePool := ⟨p.assets - p.assetsFor c, p.shares - c⟩

/-- Paying in at the pool's rate, or at one to one while there are no shares. -/
def invest (p : SharePool) (a : ℕ) : SharePool :=
  if p.shares = 0 then ⟨p.assets + a, p.shares + a⟩ else p.payIn a

/-- Cashing in at the pool's rate, paid out in a word of `n` values. -/
def divest (n : ℕ) (p : SharePool) (c : ℕ) : SharePool :=
  ⟨p.assets - p.assetsFor c % n, p.shares - c⟩

/-- All shares received for amounts paid in one after another. -/
def mintedFor (p : SharePool) : List ℕ → ℕ
  | [] => 0
  | a :: as => p.sharesFor a + (p.payIn a).mintedFor as

/-- Everything received for shares cashed in one after another. -/
def paidFor (p : SharePool) : List ℕ → ℕ
  | [] => 0
  | c :: cs => p.assetsFor c + (p.cashIn c).paidFor cs

theorem sharesFor_mul_le (p : SharePool) (a : ℕ) : p.sharesFor a * p.assets ≤ a * p.shares :=
  Nat.div_mul_le_self _ _

theorem assetsFor_mul_le (p : SharePool) (c : ℕ) : p.assetsFor c * p.shares ≤ c * p.assets :=
  Nat.div_mul_le_self _ _

theorem payIn_step (hpos : 0 < p.shares) (a : ℕ) : p.Step (p.payIn a) :=
  .payIn a _ hpos (sharesFor_mul_le p a)

@[simp] theorem assetsFor_zero (p : SharePool) : p.assetsFor 0 = 0 := by
  rw [assetsFor, Nat.zero_mul, Nat.zero_div]

/-- More shares of no worse a pool are worth no less. -/
theorem NoWorse.assetsFor_le (h : p.NoWorse q) (hpos : 0 < q.shares) {c d : ℕ} (hle : c ≤ d) :
    p.assetsFor c ≤ q.assetsFor d := by
  unfold assetsFor
  rcases Nat.eq_zero_or_pos p.shares with hzero | hp
  · rw [hzero, Nat.div_zero]
    exact Nat.zero_le _
  · rw [Nat.le_div_iff_mul_le hpos]
    apply Nat.le_of_mul_le_mul_right _ hp
    calc c * p.assets / p.shares * q.shares * p.shares
        = c * p.assets / p.shares * p.shares * q.shares := Nat.mul_right_comm _ _ _
      _ ≤ c * p.assets * q.shares := Nat.mul_le_mul_right _ (Nat.div_mul_le_self _ _)
      _ = c * (p.assets * q.shares) := Nat.mul_assoc _ _ _
      _ ≤ d * (q.assets * p.shares) := Nat.mul_le_mul hle h
      _ = d * q.assets * p.shares := (Nat.mul_assoc _ _ _).symm

theorem assetsFor_le (p : SharePool) {c : ℕ} (hc : c ≤ p.shares) : p.assetsFor c ≤ p.assets :=
  Nat.div_le_of_le_mul (Nat.mul_le_mul_right _ hc)

/-- Two roundings never give more than one. -/
theorem sharesFor_add_le (p : SharePool) (a b : ℕ) :
    p.sharesFor a + p.sharesFor b ≤ p.sharesFor (a + b) := by
  unfold sharesFor
  rw [Nat.add_mul]
  exact Nat.div_add_div_le_add_div

/-- A payment does not make shares cheaper. -/
theorem sharesFor_payIn_le (hpos : 0 < p.assets) (a x : ℕ) :
    (p.payIn a).sharesFor x ≤ p.sharesFor x := by
  have hfloor : (p.payIn a).sharesFor x * (p.assets + a) ≤ x * (p.shares + p.sharesFor a) :=
    sharesFor_mul_le (p.payIn a) x
  have hrate : (p.shares + p.sharesFor a) * p.assets ≤ p.shares * (p.assets + a) := by
    have hminted := sharesFor_mul_le p a
    rw [Nat.add_mul, Nat.mul_add, Nat.mul_comm p.shares a]
    exact Nat.add_le_add_left hminted _
  refine (Nat.le_div_iff_mul_le hpos).mpr ?_
  apply Nat.le_of_mul_le_mul_right _ (Nat.add_pos_left hpos a)
  calc (p.payIn a).sharesFor x * p.assets * (p.assets + a)
      = (p.payIn a).sharesFor x * (p.assets + a) * p.assets := Nat.mul_right_comm _ _ _
    _ ≤ x * (p.shares + p.sharesFor a) * p.assets := Nat.mul_le_mul_right _ hfloor
    _ = x * ((p.shares + p.sharesFor a) * p.assets) := Nat.mul_assoc _ _ _
    _ ≤ x * (p.shares * (p.assets + a)) := Nat.mul_le_mul_left _ hrate
    _ = x * p.shares * (p.assets + a) := (Nat.mul_assoc _ _ _).symm

/-- Paying in parts never gives more shares than paying in the sum. -/
theorem mintedFor_le (as : List ℕ) :
    ∀ p : SharePool, 0 < p.assets → p.mintedFor as ≤ p.sharesFor as.sum := by
  induction as with
  | nil => exact fun p _ => Nat.zero_le _
  | cons a as ih =>
      intro p hpos
      rw [List.sum_cons]
      calc p.sharesFor a + (p.payIn a).mintedFor as
          ≤ p.sharesFor a + (p.payIn a).sharesFor as.sum :=
            Nat.add_le_add_left (ih _ (Nat.add_pos_left hpos a)) _
        _ ≤ p.sharesFor a + p.sharesFor as.sum :=
            Nat.add_le_add_left (sharesFor_payIn_le hpos a as.sum) _
        _ ≤ p.sharesFor (a + as.sum) := sharesFor_add_le p a as.sum

theorem paidFor_of_sum_eq_zero (cs : List ℕ) :
    ∀ p : SharePool, cs.sum = 0 → p.paidFor cs = 0 := by
  induction cs with
  | nil => exact fun _ _ => rfl
  | cons c cs ih =>
      intro p hsum
      rw [List.sum_cons] at hsum
      obtain ⟨hc, hcs⟩ := Nat.add_eq_zero_iff.mp hsum
      rw [paidFor, hc, assetsFor_zero, ih _ hcs]

/-- What is paid for parts is within what is due for the sum.  A part that is rounded down leaves
more for each remaining share, but the remaining shares that are cashed in are not more than those
that remain. -/
theorem paidFor_mul_le (cs : List ℕ) :
    ∀ p : SharePool, cs.sum ≤ p.shares → p.paidFor cs * p.shares ≤ cs.sum * p.assets := by
  induction cs with
  | nil =>
      intro p _
      rw [paidFor, Nat.zero_mul]
      exact Nat.zero_le _
  | cons c cs ih =>
      intro p hsum
      rw [List.sum_cons] at hsum ⊢
      obtain ⟨e, hshares⟩ := Nat.exists_eq_add_of_le hsum
      have hrest : p.shares - c = cs.sum + e := by omega
      have hfirst := assetsFor_mul_le p c
      have hlater : (p.cashIn c).paidFor cs * (cs.sum + e) ≤
          cs.sum * (p.assets - p.assetsFor c) := by
        rw [← hrest]
        exact ih (p.cashIn c) (show cs.sum ≤ p.shares - c by omega)
      obtain ⟨kept, hassets⟩ :=
        Nat.exists_eq_add_of_le (assetsFor_le p (show c ≤ p.shares by omega))
      rw [show p.assets - p.assetsFor c = kept by omega] at hlater
      rw [paidFor]
      rcases Nat.eq_zero_or_pos (cs.sum + e) with hnone | hsome
      · -- no share is left, so nothing more is paid
        have hzero : cs.sum = 0 := by omega
        rw [paidFor_of_sum_eq_zero cs _ hzero, hzero]
        exact hfirst
      · apply Nat.le_of_mul_le_mul_right _ hsome
        rw [hassets, hshares] at hfirst ⊢
        generalize p.assetsFor c = l at *
        generalize (p.cashIn c).paidFor cs = rest at *
        generalize cs.sum = n at *
        calc (l + rest) * (c + n + e) * (n + e)
            = l * (c + n + e) * (n + e) + rest * (n + e) * (c + n + e) := by ring
          _ ≤ l * (c + n + e) * (n + e) + n * kept * (c + n + e) :=
              Nat.add_le_add_left (Nat.mul_le_mul_right _ hlater) _
          _ = l * (c + n + e) * e + n * (l + kept) * (c + n + e) := by ring
          _ ≤ c * (l + kept) * e + n * (l + kept) * (c + n + e) :=
              Nat.add_le_add_right (Nat.mul_le_mul_right _ hfirst) _
          _ = (c + n) * (l + kept) * (n + e) := by ring

/-- Cashing in parts never pays more than cashing in the sum. -/
theorem paidFor_le {cs : List ℕ} (hpos : 0 < p.shares) (hsum : cs.sum ≤ p.shares) :
    p.paidFor cs ≤ p.assetsFor cs.sum :=
  (Nat.le_div_iff_mul_le hpos).mpr (paidFor_mul_le cs p hsum)

/-- The rate of the shares that remain does not fall, and rises by the rounding of the others, which
is less than one asset for all of them. -/
theorem cashIn_rate {d : ℕ} (hpos : 0 < p.shares) (hd : d ≤ p.shares) :
    p.assets * (p.cashIn d).shares ≤ (p.cashIn d).assets * p.shares ∧
      (p.cashIn d).assets * p.shares ≤ p.assets * (p.cashIn d).shares + p.shares := by
  refine ⟨remaining_le (assetsFor_mul_le p d), ?_⟩
  show (p.assets - p.assetsFor d) * p.shares ≤ p.assets * (p.shares - d) + p.shares
  have hunder : d * p.assets < p.assetsFor d * p.shares + p.shares := Nat.lt_div_mul_add hpos
  have hwithin : d * p.assets ≤ p.assets * p.shares := by
    rw [Nat.mul_comm]
    exact Nat.mul_le_mul_left _ hd
  rw [Nat.sub_mul, Nat.mul_sub, Nat.mul_comm p.assets d]
  omega

/-- Shares cashed in after others get at least what they would have got before them. -/
theorem assetsFor_le_cashIn {c d : ℕ} (hpos : 0 < p.shares) (hsum : c + d ≤ p.shares) :
    p.assetsFor c ≤ (p.cashIn d).assetsFor c := by
  rcases Nat.eq_zero_or_pos c with rfl | hc
  · rw [assetsFor_zero]
    exact Nat.zero_le _
  have hsome : 0 < (p.cashIn d).shares := by
    show 0 < p.shares - d
    omega
  obtain ⟨hrate, -⟩ := cashIn_rate hpos (Nat.le_of_add_left_le hsum)
  refine (Nat.le_div_iff_mul_le hsome).mpr ?_
  apply Nat.le_of_mul_le_mul_right _ hpos
  calc p.assetsFor c * (p.cashIn d).shares * p.shares
      = p.assetsFor c * p.shares * (p.cashIn d).shares := Nat.mul_right_comm _ _ _
    _ ≤ c * p.assets * (p.cashIn d).shares := Nat.mul_le_mul_right _ (assetsFor_mul_le p c)
    _ = c * (p.assets * (p.cashIn d).shares) := Nat.mul_assoc _ _ _
    _ ≤ c * ((p.cashIn d).assets * p.shares) := Nat.mul_le_mul_left _ hrate
    _ = c * (p.cashIn d).assets * p.shares := (Nat.mul_assoc _ _ _).symm

/-- And at most one asset more. -/
theorem assetsFor_cashIn_le {c d : ℕ} (hpos : 0 < p.shares) (hsum : c + d ≤ p.shares) :
    (p.cashIn d).assetsFor c ≤ p.assetsFor c + 1 := by
  rcases Nat.eq_zero_or_pos c with rfl | hc
  · rw [assetsFor_zero]
    exact Nat.zero_le _
  have hremain : c ≤ (p.cashIn d).shares := by
    show c ≤ p.shares - d
    omega
  have hsome : 0 < (p.cashIn d).shares := Nat.lt_of_lt_of_le hc hremain
  obtain ⟨-, hrate⟩ := cashIn_rate hpos (Nat.le_of_add_left_le hsum)
  have hover : c * p.assets < (p.assetsFor c + 1) * p.shares := by
    rw [Nat.add_mul, Nat.one_mul]
    exact Nat.lt_div_mul_add hpos
  apply Nat.le_of_lt_succ
  refine (Nat.div_lt_iff_lt_mul hsome).mpr ?_
  apply Nat.lt_of_mul_lt_mul_right (a := p.shares)
  calc c * (p.cashIn d).assets * p.shares
      = c * ((p.cashIn d).assets * p.shares) := Nat.mul_assoc _ _ _
    _ ≤ c * (p.assets * (p.cashIn d).shares + p.shares) := Nat.mul_le_mul_left _ hrate
    _ = c * p.assets * (p.cashIn d).shares + c * p.shares := by ring
    _ < (p.assetsFor c + 1) * p.shares * (p.cashIn d).shares + c * p.shares :=
        Nat.add_lt_add_right (Nat.mul_lt_mul_of_pos_right hover hsome) _
    _ ≤ (p.assetsFor c + 1) * p.shares * (p.cashIn d).shares + (p.cashIn d).shares * p.shares :=
        Nat.add_le_add_left (Nat.mul_le_mul_right _ hremain) _
    _ = (p.assetsFor c + 1 + 1) * (p.cashIn d).shares * p.shares := by ring

end SharePool

end Kit
