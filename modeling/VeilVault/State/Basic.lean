/-
# VeilVault.State.Basic — words, addresses, faults, constants and the clock.

Everything below is shared by the account types.  Two choices matter to every later theorem:

* Addresses are *symbolic*.  A program-derived address is the free constructor of its seeds, so two
  derivations collide exactly when tag and seeds agree, and no derived address is a wallet.  Bumps
  are canonical and therefore omitted.
* A failing instruction is one of four things (`Fault`).  `abort` is the runtime panic that
  `overflow-checks = true` and out-of-range indexing produce; it is kept apart from a returned
  `LendingError`, because some statements distinguish the two.
-/
import Mathlib.Algebra.Group.Nat.Defs
import VeilVault.Kit.Checked
import VeilVault.Kit.Fallible
import VeilVault.Kit.TokenLedger

namespace VeilVault

open Kit

/-! ## Words -/

abbrev U8 := BitVec 8
abbrev U16 := BitVec 16
abbrev U64 := BitVec 64
abbrev U128 := BitVec 128

/-- `x as u128` for a `u64`. -/
def U64.toU128 (x : U64) : U128 := x.setWidth 128
/-- `x as u64` for a `u128`: the high half is dropped. -/
def U128.toU64 (x : U128) : U64 := x.setWidth 64
/-- `x as u64` for a `u16`. -/
def U16.toU64 (x : U16) : U64 := x.setWidth 64
/-- `x as u128` for a `u16`. -/
def U16.toU128 (x : U16) : U128 := x.setWidth 128
/-- `x as u128` for a `u8`. -/
def U8.toU128 (x : U8) : U128 := x.setWidth 128

/-- `x.max(y)`. -/
def U128.max (x y : U128) : U128 := if x ≤ y then y else x
/-- `x.min(y)`. -/
def U128.min (x y : U128) : U128 := if x ≤ y then x else y
/-- `x.min(y)`. -/
def U64.min (x y : U64) : U64 := if x ≤ y then x else y

@[simp] theorem toNat_u128_max (x y : U128) : (U128.max x y).toNat = Max.max x.toNat y.toNat := by
  unfold U128.max
  split <;> simp_all only [BitVec.le_def] <;> omega

@[simp] theorem toNat_u128_min (x y : U128) : (U128.min x y).toNat = Min.min x.toNat y.toNat := by
  unfold U128.min
  split <;> simp_all only [BitVec.le_def] <;> omega

@[simp] theorem toNat_u64_min (x y : U64) : (U64.min x y).toNat = Min.min x.toNat y.toNat := by
  unfold U64.min
  split <;> simp_all only [BitVec.le_def] <;> omega

@[simp] theorem toNat_toU128 (x : U64) : (U64.toU128 x).toNat = x.toNat :=
  toNat_widen (by decide) x
@[simp] theorem toNat_u16_toU64 (x : U16) : (U16.toU64 x).toNat = x.toNat :=
  toNat_widen (by decide) x
@[simp] theorem toNat_u16_toU128 (x : U16) : (U16.toU128 x).toNat = x.toNat :=
  toNat_widen (by decide) x
@[simp] theorem toNat_u8_toU128 (x : U8) : (U8.toU128 x).toNat = x.toNat :=
  toNat_widen (by decide) x

theorem toNat_toU64 (x : U128) : (U128.toU64 x).toNat = x.toNat % 2 ^ 64 :=
  BitVec.toNat_setWidth 64 x

theorem toNat_toU64_of_lt {x : U128} (h : x.toNat < 2 ^ 64) : (U128.toU64 x).toNat = x.toNat :=
  toNat_narrow_of_lt h

/-! ## Addresses -/

/-- An account address: a wallet or a foreign account (`key`), or one of the program's derived
addresses, written as its seeds. -/
inductive Pubkey
  | key (n : Nat)
  | lendingMarket (owner : Pubkey)
  | reserve (market mint : Pubkey)
  | liquidityVault (reserve : Pubkey)
  | feeVault (reserve : Pubkey)
  | collateralMint (reserve : Pubkey)
  | collateralSupply (reserve : Pubkey)
  | obligation (market user : Pubkey)
  | privateObligation (market user : Pubkey)
  deriving DecidableEq, Repr

/-- `Pubkey::default()`, the all-zero address. -/
instance : Inhabited Pubkey := ⟨.key 0⟩

/-- Only accounts that are not derived by this program can sign a transaction from outside. -/
def Pubkey.isWallet : Pubkey → Bool
  | .key _ => true
  | _ => false

theorem Pubkey.ne_default {k : Pubkey} (hk : k.isWallet = false) : k ≠ default := by
  rintro rfl
  cases hk

/-! ## Faults -/

/-- The program's error codes (`error.rs`). -/
inductive LendingError
  | mathOverflow
  | invalidVersion
  | invalidFee
  | insufficientLiquidity
  | borrowRateZeroFound
  | zeroSlotsElapsed
  | invalidConfig
  | depositLimitExceeded
  | borrowLimitExceeded
  | insufficientCollateral
  | obligationDepositsFull
  | obligationBorrowsFull
  | depositNotFound
  | borrowNotFound
  | borrowRateDecreased
  | invalidAmount
  | priceStale
  | priceNotValid
  | priceConfidenceTooWide
  | unhealthyObligation
  | obligationStale
  | obligationHealthy
  | abortedComputation
  | clusterNotSet
  | privateObligationNotInitialized
  | alreadyInitialized
  deriving DecidableEq, Repr

/-- The account constraints an instruction can violate before its handler runs. -/
inductive ConstraintError
  | accountNotInitialized
  | accountAlreadyInUse
  | constraintSigner
  | constraintSeeds
  | constraintHasOne
  | constraintTokenMint
  | constraintTokenOwner
  deriving DecidableEq, Repr

/-- Why a transaction was rolled back. -/
inductive Fault
  | lending (e : LendingError)
  | constraint (e : ConstraintError)
  | token (e : TokenError)
  | abort
  deriving DecidableEq, Repr

abbrev Result := Except Fault

/-- `require!(c, e)`. -/
def require (c : Prop) [Decidable c] (e : LendingError) : Result Unit :=
  ensure c (.lending e)

/-- `o.ok_or(e)?`. -/
def okOr {α : Type} (o : Option α) (e : LendingError) : Result α :=
  orFail o (.lending e)

/-- Unchecked arithmetic under `overflow-checks = true`, and indexing: no value means a panic. -/
def orAbort {α : Type} (o : Option α) : Result α :=
  orFail o .abort

/-- An account constraint of an `#[derive(Accounts)]` struct. -/
def constrain (c : Prop) [Decidable c] (e : ConstraintError) : Result Unit :=
  ensure c (.constraint e)

/-- A token-program call. -/
def cpi {α : Type} (x : Except TokenError α) : Result α :=
  x.mapError .token

@[simp] theorem cpi_eq_ok {α : Type} {x : Except TokenError α} {a : α} :
    cpi x = .ok a ↔ x = .ok a := by
  cases x <;> simp [cpi, Except.mapError]

@[simp] theorem require_eq_ok {c : Prop} [Decidable c] {e : LendingError} {u : Unit} :
    require c e = .ok u ↔ c := ensure_eq_ok

@[simp] theorem constrain_eq_ok {c : Prop} [Decidable c] {e : ConstraintError} {u : Unit} :
    constrain c e = .ok u ↔ c := ensure_eq_ok

@[simp] theorem okOr_eq_ok {α : Type} {o : Option α} {e : LendingError} {a : α} :
    okOr o e = .ok a ↔ o = some a := orFail_eq_ok

@[simp] theorem orAbort_eq_ok {α : Type} {o : Option α} {a : α} :
    orAbort o = .ok a ↔ o = some a := orFail_eq_ok

theorem require_eq_error {c : Prop} [Decidable c] {e : LendingError} {e' : Fault} :
    require c e = .error e' ↔ ¬ c ∧ .lending e = e' := ensure_eq_error

theorem okOr_eq_error {α : Type} {o : Option α} {e : LendingError} {e' : Fault} :
    okOr o e = .error e' ↔ o = none ∧ .lending e = e' := orFail_eq_error

theorem orAbort_eq_error {α : Type} {o : Option α} {e' : Fault} :
    orAbort o = .error e' ↔ o = none ∧ .abort = e' := orFail_eq_error

theorem require_pos {c : Prop} [Decidable c] {e : LendingError} (h : c) :
    require c e = .ok () := if_pos h

theorem require_neg {c : Prop} [Decidable c] {e : LendingError} (h : ¬ c) :
    require c e = .error (.lending e) := if_neg h

theorem okOr_some {α : Type} {a : α} {e : LendingError} : okOr (some a) e = .ok a := rfl

theorem okOr_none {α : Type} {e : LendingError} :
    okOr (none : Option α) e = .error (.lending e) := rfl

/-! ## Accounts -/

/-- `account.load()` / `load_mut()`. -/
def load {α : Type} (accounts : Pubkey → Option α) (key : Pubkey) : Result α :=
  orFail (accounts key) (.constraint .accountNotInitialized)

/-- Store an account back. -/
def store {α : Type} (accounts : Pubkey → Option α) (key : Pubkey) (a : α) :
    Pubkey → Option α :=
  fun k => if k = key then some a else accounts k

@[simp] theorem load_eq_ok {α : Type} {accounts : Pubkey → Option α} {key : Pubkey} {a : α} :
    load accounts key = .ok a ↔ accounts key = some a := orFail_eq_ok

theorem store_self {α : Type} (accounts : Pubkey → Option α) (key : Pubkey) (a : α) :
    store accounts key a key = some a := if_pos rfl

theorem store_of_ne {α : Type} (accounts : Pubkey → Option α) {key k : Pubkey} (a : α)
    (h : k ≠ key) : store accounts key a k = accounts k := if_neg h

/-- What holds of all accounts still does after storing one of which it holds. -/
theorem forall_store {α : Type} {accounts : Pubkey → Option α} {P : Pubkey → α → Prop}
    {key : Pubkey} {a : α} (hP : ∀ k c, accounts k = some c → P k c) (ha : P key a) :
    ∀ k c, store accounts key a k = some c → P k c := by
  intro k c hc
  by_cases hk : k = key
  · rw [hk, store_self] at hc
    cases hc
    exact hk ▸ ha
  · exact hP k c (store_of_ne accounts a hk ▸ hc)

/-- An amount read from an account, zero if there is none. -/
def amountIn {α M : Type} [Zero M] (f : α → M) (accounts : Pubkey → Option α) (key : Pubkey) : M :=
  (accounts key).elim 0 f

section AmountIn

variable {α M : Type} [AddZeroClass M] {f : α → M} {accounts : Pubkey → Option α} {key : Pubkey}
  {a a' : α} {n : M}

theorem amountIn_of (h : accounts key = some a) : amountIn f accounts key = f a := by
  rw [amountIn, h, Option.elim_some]

theorem amountIn_store (x : Pubkey) :
    amountIn f (store accounts key a) x = if x = key then f a else amountIn f accounts x := by
  unfold amountIn store
  split <;> rfl

/-- Storing an account whose amount grew by `n`. -/
theorem amountIn_store_add (h : accounts key = some a) (hn : f a' = f a + n) (x : Pubkey) :
    amountIn f (store accounts key a') x = amountIn f accounts x + if x = key then n else 0 := by
  rw [amountIn_store]
  by_cases hx : x = key
  · rw [if_pos hx, if_pos hx, hx, amountIn_of h, hn]
  · rw [if_neg hx, if_neg hx, add_zero]

/-- Storing an account whose amount fell by `n`. -/
theorem amountIn_store_sub (h : accounts key = some a) (hn : f a' + n = f a) (x : Pubkey) :
    amountIn f (store accounts key a') x + (if x = key then n else 0) = amountIn f accounts x := by
  rw [amountIn_store]
  by_cases hx : x = key
  · rw [if_pos hx, if_pos hx, hx, amountIn_of h, hn]
  · rw [if_neg hx, if_neg hx, add_zero]

theorem amountIn_store_same (h : accounts key = some a) (hn : f a' = f a) (x : Pubkey) :
    amountIn f (store accounts key a') x = amountIn f accounts x := by
  have hadd := amountIn_store_add h (hn.trans (add_zero _).symm) x
  rw [hadd, ite_self, add_zero]

/-- Storing a new account with a zero amount. -/
theorem amountIn_store_new (h : accounts key = none) (hn : f a = 0) (x : Pubkey) :
    amountIn f (store accounts key a) x = amountIn f accounts x := by
  rw [amountIn_store]
  by_cases hx : x = key
  · rw [if_pos hx, hx, amountIn, h, hn, Option.elim_none]
  · rw [if_neg hx]

end AmountIn

/-! ## Constants (`constants.rs`) -/

def bpsScaler : U64 := 10000
def percentScaler : U128 := 100
def maxProtocolFeeBps : U16 := 1000
def slotsPerSecond : U64 := 2
def slotsPerYear : U64 := 63072000
def rateScale : U128 := 1000000000000
def maxLiquidationThresholdPct : U8 := 100
def maxUtilizationBps : U16 := 10000
def maxAgeSeconds : Int64 := 60
def maxLiquidationCloseFactorPct : U128 := 50

theorem slotsPerYear_eq : slotsPerYear = 365 * (24 * (60 * (60 * slotsPerSecond))) := by decide

@[simp] theorem toNat_bpsScaler : bpsScaler.toNat = 10000 := rfl
@[simp] theorem toNat_percentScaler : percentScaler.toNat = 100 := rfl
@[simp] theorem toNat_maxProtocolFeeBps : maxProtocolFeeBps.toNat = 1000 := rfl
@[simp] theorem toNat_slotsPerYear : slotsPerYear.toNat = 63072000 := rfl
@[simp] theorem toNat_rateScale : rateScale.toNat = 10 ^ 12 := rfl
@[simp] theorem toNat_closeFactor : maxLiquidationCloseFactorPct.toNat = 50 := rfl

/-! ## The clock -/

/-- The clock sysvar, as far as the program reads it. -/
structure Clock where
  slot : U64
  unixTimestamp : Int64
  deriving DecidableEq, Repr

/-- `x.saturating_sub(y)` for `i64`. -/
def saturatingSubI64 (x y : Int64) : Int64 :=
  Int64.ofInt (max Int64.minValue.toInt (min Int64.maxValue.toInt (x.toInt - y.toInt)))

/-- When an obligation was last refreshed (`utils/last_update.rs`). -/
structure LastUpdate where
  slot : U64
  timestamp : Int64
  deriving DecidableEq, Repr

namespace LastUpdate

instance : Inhabited LastUpdate := ⟨⟨0, 0⟩⟩

def update (_ : LastUpdate) (slot : U64) (timestamp : Int64) : LastUpdate := ⟨slot, timestamp⟩

def isPriceStale (u : LastUpdate) (currTime : Int64) : Bool :=
  saturatingSubI64 currTime u.timestamp > maxAgeSeconds

def isSlotStale (u : LastUpdate) (currSlot : U64) : Bool := currSlot != u.slot

@[simp] theorem isSlotStale_eq_false {u : LastUpdate} {s : U64} :
    u.isSlotStale s = false ↔ u.slot = s := by
  simp only [isSlotStale, bne_eq_false_iff_eq]
  exact eq_comm

end LastUpdate

end VeilVault
