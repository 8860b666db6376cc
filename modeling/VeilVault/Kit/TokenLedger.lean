/-
# Kit.TokenLedger — mints, token accounts, and who may move what.

The part of a token program that a client relies on: balances move by exactly the requested amount,
out of an account only with its authority's signature, and new tokens appear only with the mint's.
Keys are an arbitrary type.  An operation that succeeds is described by what it does to every
balance and every supply at once (`transfer_ok`, `mintTo_ok`, `burn_ok`); a transfer from an account
to itself is covered by the same equation.
-/
import Mathlib.Tactic.Common
import VeilVault.Kit.Checked
import VeilVault.Kit.Fallible

namespace Kit

/-- The ways a token operation refuses. -/
inductive TokenError
  | uninitializedAccount
  | accountAlreadyInUse
  | mintMismatch
  | ownerMismatch
  | insufficientFunds
  | overflow
  deriving DecidableEq, Repr

structure TokenAccount (κ : Type) where
  mint : κ
  authority : κ
  amount : BitVec 64

structure TokenMint (κ : Type) where
  authority : κ
  supply : BitVec 64

structure TokenLedger (κ : Type) where
  accounts : κ → Option (TokenAccount κ)
  mints : κ → Option (TokenMint κ)

namespace TokenLedger

variable {κ : Type}

/-! ## Reading -/

/-- The amount in an account, zero if there is none. -/
def balance (t : TokenLedger κ) (k : κ) : ℕ := (t.accounts k).elim 0 (·.amount.toNat)

/-- Who may move tokens out of an account. -/
def authorityOf (t : TokenLedger κ) (k : κ) : Option κ := (t.accounts k).map (·.authority)

/-- The tokens of a mint in circulation. -/
def supply (t : TokenLedger κ) (m : κ) : ℕ := (t.mints m).elim 0 (·.supply.toNat)

/-- Who may issue tokens of a mint. -/
def mintAuthority (t : TokenLedger κ) (m : κ) : Option κ := (t.mints m).map (·.authority)

def empty : TokenLedger κ := ⟨fun _ => none, fun _ => none⟩

variable {t t' : TokenLedger κ} {k x source destination mint authority : κ} {a : TokenAccount κ}
  {m : TokenMint κ} {amount : BitVec 64}

theorem balance_of (h : t.accounts k = some a) : t.balance k = a.amount.toNat := by
  rw [balance, h, Option.elim_some]

theorem authorityOf_of (h : t.accounts k = some a) : t.authorityOf k = some a.authority := by
  rw [authorityOf, h, Option.map_some]

theorem supply_of (h : t.mints k = some m) : t.supply k = m.supply.toNat := by
  rw [supply, h, Option.elim_some]

theorem mintAuthority_of (h : t.mints k = some m) : t.mintAuthority k = some m.authority := by
  rw [mintAuthority, h, Option.map_some]

/-- Nobody gained or lost authority. -/
structure SameAuthorities (t t' : TokenLedger κ) : Prop where
  accounts : ∀ k, t'.authorityOf k = t.authorityOf k
  mints : ∀ m, t'.mintAuthority m = t.mintAuthority m

theorem SameAuthorities.refl (t : TokenLedger κ) : SameAuthorities t t :=
  ⟨fun _ => rfl, fun _ => rfl⟩

/-! ## Operations -/

variable [DecidableEq κ]

def putAccount (t : TokenLedger κ) (k : κ) (a : TokenAccount κ) : TokenLedger κ :=
  { t with accounts := fun x => if x = k then some a else t.accounts x }

def putMint (t : TokenLedger κ) (k : κ) (m : TokenMint κ) : TokenLedger κ :=
  { t with mints := fun x => if x = k then some m else t.mints x }

/-- A new, empty account at an unused key. -/
def openAccount (t : TokenLedger κ) (key mint authority : κ) :
    Except TokenError (TokenLedger κ) := do
  ensure (t.accounts key).isNone .accountAlreadyInUse
  let _ ← orFail (t.mints mint) .uninitializedAccount
  return t.putAccount key { mint, authority, amount := 0 }

/-- A new mint at an unused key. -/
def openMint (t : TokenLedger κ) (key authority : κ) : Except TokenError (TokenLedger κ) := do
  ensure (t.mints key).isNone .accountAlreadyInUse
  return t.putMint key { authority, supply := 0 }

/-- Move tokens; a transfer to the source itself is checked and then changes nothing. -/
def transfer (t : TokenLedger κ) (source mint destination authority : κ) (amount : BitVec 64) :
    Except TokenError (TokenLedger κ) := do
  let s ← orFail (t.accounts source) .uninitializedAccount
  let d ← orFail (t.accounts destination) .uninitializedAccount
  let _ ← orFail (t.mints mint) .uninitializedAccount
  ensure (s.mint = mint ∧ d.mint = mint) .mintMismatch
  ensure (s.authority = authority) .ownerMismatch
  let left ← orFail (checkedSub s.amount amount) .insufficientFunds
  if source = destination then return t
  let received ← orFail (checkedAdd d.amount amount) .overflow
  return (t.putAccount source { s with amount := left }).putAccount destination
    { d with amount := received }

/-- Issue tokens to an account. -/
def mintTo (t : TokenLedger κ) (mint destination authority : κ) (amount : BitVec 64) :
    Except TokenError (TokenLedger κ) := do
  let d ← orFail (t.accounts destination) .uninitializedAccount
  let m ← orFail (t.mints mint) .uninitializedAccount
  ensure (d.mint = mint) .mintMismatch
  ensure (m.authority = authority) .ownerMismatch
  let received ← orFail (checkedAdd d.amount amount) .overflow
  let issued ← orFail (checkedAdd m.supply amount) .overflow
  return (t.putAccount destination { d with amount := received }).putMint mint
    { m with supply := issued }

/-- Destroy tokens in an account. -/
def burn (t : TokenLedger κ) (mint source authority : κ) (amount : BitVec 64) :
    Except TokenError (TokenLedger κ) := do
  let s ← orFail (t.accounts source) .uninitializedAccount
  let m ← orFail (t.mints mint) .uninitializedAccount
  ensure (s.mint = mint) .mintMismatch
  ensure (s.authority = authority) .ownerMismatch
  let left ← orFail (checkedSub s.amount amount) .insufficientFunds
  let remaining ← orFail (checkedSub m.supply amount) .insufficientFunds
  return (t.putAccount source { s with amount := left }).putMint mint
    { m with supply := remaining }

/-! ## What writing a record does -/

theorem balance_putAccount :
    (t.putAccount k a).balance x = if x = k then a.amount.toNat else t.balance x := by
  unfold balance putAccount
  by_cases h : x = k
  · simp only [if_pos h, Option.elim_some]
  · simp only [if_neg h]

theorem authorityOf_putAccount :
    (t.putAccount k a).authorityOf x = if x = k then some a.authority else t.authorityOf x := by
  unfold authorityOf putAccount
  by_cases h : x = k
  · simp only [if_pos h, Option.map_some]
  · simp only [if_neg h]

theorem supply_putMint :
    (t.putMint k m).supply x = if x = k then m.supply.toNat else t.supply x := by
  unfold supply putMint
  by_cases h : x = k
  · simp only [if_pos h, Option.elim_some]
  · simp only [if_neg h]

theorem mintAuthority_putMint :
    (t.putMint k m).mintAuthority x = if x = k then some m.authority else t.mintAuthority x := by
  unfold mintAuthority putMint
  by_cases h : x = k
  · simp only [if_pos h, Option.map_some]
  · simp only [if_neg h]

/-- Rewriting an account's amount changes nobody's authority. -/
theorem authorityOf_setAmount (h : t.accounts k = some a) (n : BitVec 64) :
    (t.putAccount k { a with amount := n }).authorityOf x = t.authorityOf x := by
  rw [authorityOf_putAccount]
  split
  case isTrue he => rw [he, authorityOf_of h]
  case isFalse => rfl

theorem mintAuthority_setSupply (h : t.mints k = some m) (n : BitVec 64) :
    (t.putMint k { m with supply := n }).mintAuthority x = t.mintAuthority x := by
  rw [mintAuthority_putMint]
  split
  case isTrue he => rw [he, mintAuthority_of h]
  case isFalse => rfl

/-! ## What an operation does -/

/-- A successful transfer was signed by the source's authority; every balance moves by what went
out and what came in, and supplies stay. -/
theorem transfer_ok (h : t.transfer source mint destination authority amount = .ok t') :
    t.authorityOf source = some authority ∧ SameAuthorities t t' ∧ (∀ m, t'.supply m = t.supply m) ∧
      ∀ x, t'.balance x + (if x = source then amount.toNat else 0) =
        t.balance x + (if x = destination then amount.toNat else 0) := by
  simp only [transfer, bind_eq_ok, orFail_eq_ok, ensure_eq_ok, exists_const,
    checkedSub_eq_some] at h
  obtain ⟨s, hs, d, hd, m, -, -, hauth, left, hleft, h⟩ := h
  have hsigned : t.authorityOf source = some authority := hauth ▸ authorityOf_of hs
  by_cases hself : source = destination
  · rw [if_pos hself, pure_eq_ok] at h
    subst h hself
    exact ⟨hsigned, .refl _, fun _ => rfl, fun _ => rfl⟩
  · simp only [if_neg hself, bind_eq_ok, orFail_eq_ok, checkedAdd_eq_some, pure_eq_ok] at h
    obtain ⟨received, hreceived, rfl⟩ := h
    have hd' : (t.putAccount source { s with amount := left }).accounts destination = some d := by
      show (if destination = source then _ else t.accounts destination) = some d
      rw [if_neg (Ne.symm hself), hd]
    refine ⟨hsigned, ⟨fun k => ?_, fun _ => rfl⟩, fun _ => rfl, fun x => ?_⟩
    · rw [authorityOf_setAmount hd', authorityOf_setAmount hs]
    · rw [balance_putAccount, balance_putAccount]
      by_cases hxd : x = destination
      · have hxs : x ≠ source := fun he => hself (he.symm.trans hxd)
        have hbal : t.balance x = d.amount.toNat := hxd ▸ balance_of hd
        simp only [if_pos hxd, if_neg hxs, hreceived, hbal]
        omega
      · by_cases hxs : x = source
        · have hbal : t.balance x = s.amount.toNat := hxs ▸ balance_of hs
          simp only [if_neg hxd, if_pos hxs, hbal]
          omega
        · simp only [if_neg hxd, if_neg hxs]

/-- A successful issue was signed by the mint's authority. -/
theorem mintTo_ok (h : t.mintTo mint destination authority amount = .ok t') :
    t.mintAuthority mint = some authority ∧ SameAuthorities t t' ∧
      (∀ m, t'.supply m = t.supply m + (if m = mint then amount.toNat else 0)) ∧
      ∀ x, t'.balance x = t.balance x + (if x = destination then amount.toNat else 0) := by
  simp only [mintTo, bind_eq_ok, orFail_eq_ok, ensure_eq_ok, exists_const, checkedAdd_eq_some,
    pure_eq_ok] at h
  obtain ⟨d, hd, m, hm, -, hauth, received, hreceived, issued, hissued, rfl⟩ := h
  refine ⟨hauth ▸ mintAuthority_of hm, ⟨fun k => ?_, fun k => ?_⟩, fun y => ?_, fun x => ?_⟩
  · exact authorityOf_setAmount hd received
  · exact mintAuthority_setSupply hm issued
  · have hput :
        (t.putAccount destination { d with amount := received }).supply y = t.supply y := rfl
    rw [supply_putMint, hput]
    by_cases hy : y = mint
    · rw [if_pos hy, if_pos hy, hy, supply_of hm, hissued]
    · rw [if_neg hy, if_neg hy, Nat.add_zero]
  · show (t.putAccount destination { d with amount := received }).balance x = _
    rw [balance_putAccount]
    by_cases hx : x = destination
    · rw [if_pos hx, if_pos hx, hx, balance_of hd, hreceived]
    · rw [if_neg hx, if_neg hx, Nat.add_zero]

/-- A successful burn was signed by the account's authority. -/
theorem burn_ok (h : t.burn mint source authority amount = .ok t') :
    t.authorityOf source = some authority ∧ SameAuthorities t t' ∧
      (∀ m, t'.supply m + (if m = mint then amount.toNat else 0) = t.supply m) ∧
      ∀ x, t'.balance x + (if x = source then amount.toNat else 0) = t.balance x := by
  simp only [burn, bind_eq_ok, orFail_eq_ok, ensure_eq_ok, exists_const, checkedSub_eq_some,
    pure_eq_ok] at h
  obtain ⟨s, hs, m, hm, -, hauth, left, hleft, remaining, hremaining, rfl⟩ := h
  refine ⟨hauth ▸ authorityOf_of hs, ⟨fun k => ?_, fun k => ?_⟩, fun y => ?_, fun x => ?_⟩
  · exact authorityOf_setAmount hs left
  · exact mintAuthority_setSupply hm remaining
  · have hput : (t.putAccount source { s with amount := left }).supply y = t.supply y := rfl
    rw [supply_putMint, hput]
    by_cases hy : y = mint
    · rw [if_pos hy, if_pos hy, hy, supply_of hm, hremaining]
    · rw [if_neg hy, if_neg hy, Nat.add_zero]
  · show (t.putAccount source { s with amount := left }).balance x + _ = _
    rw [balance_putAccount]
    by_cases hx : x = source
    · rw [if_pos hx, if_pos hx, hx, balance_of hs, hleft]
    · rw [if_neg hx, if_neg hx, Nat.add_zero]

/-- A new account is empty, and under the authority it was opened with. -/
theorem openAccount_ok (h : t.openAccount k mint authority = .ok t') :
    (∀ x, t'.authorityOf x = if x = k then some authority else t.authorityOf x) ∧
      (∀ m, t'.mintAuthority m = t.mintAuthority m) ∧ (∀ m, t'.supply m = t.supply m) ∧
      ∀ x, t'.balance x = t.balance x := by
  simp only [openAccount, bind_eq_ok, ensure_eq_ok, exists_const, orFail_eq_ok, pure_eq_ok,
    Option.isNone_iff_eq_none] at h
  obtain ⟨hfree, m, -, rfl⟩ := h
  refine ⟨fun x => authorityOf_putAccount, fun _ => rfl, fun _ => rfl, fun x => ?_⟩
  rw [balance_putAccount]
  split
  case isTrue he =>
    rw [he, balance, hfree]
    rfl
  case isFalse => rfl

/-- A new mint has issued nothing, and is under the authority it was opened with. -/
theorem openMint_ok (h : t.openMint k authority = .ok t') :
    (∀ x, t'.authorityOf x = t.authorityOf x) ∧
      (∀ m, t'.mintAuthority m = if m = k then some authority else t.mintAuthority m) ∧
      (∀ m, t'.supply m = t.supply m) ∧ ∀ x, t'.balance x = t.balance x := by
  simp only [openMint, bind_eq_ok, ensure_eq_ok, exists_const, pure_eq_ok,
    Option.isNone_iff_eq_none] at h
  obtain ⟨hfree, rfl⟩ := h
  refine ⟨fun _ => rfl, fun m => mintAuthority_putMint, fun x => ?_, fun _ => rfl⟩
  rw [supply_putMint]
  split
  case isTrue he =>
    rw [he, supply, hfree]
    rfl
  case isFalse => rfl

end TokenLedger

end Kit
