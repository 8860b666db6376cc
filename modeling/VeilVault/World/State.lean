/-
# VeilVault.World.State — all accounts, and the checks an instruction makes on those it is given.

The world is every account the program reads or writes: its own four account types, and the token
program's accounts and mints.  An instruction receives keys chosen by its caller; the
`#[derive(Accounts)]` constraints are equations between those keys and the stored fields, checked
before the handler runs.  The pause constraint of the market account is the one exception: it is
the first check of the ledger part (`Ledger.deposit` and its siblings).
-/
import VeilVault.Ledger.Liquidate
import VeilVault.Ledger.Refresh
import VeilVault.Private.Machine

namespace VeilVault

open Kit

structure World where
  clock : Clock
  markets : Pubkey → Option LendingMarket
  reserves : Pubkey → Option Reserve
  obligations : Pubkey → Option Obligation
  /-- Private obligations, each with its computations in flight. -/
  privates : Pubkey → Option PrivateState
  tokens : TokenLedger Pubkey

namespace World

/-- Before anything was created. -/
def genesis (clock : Clock) : World where
  clock := clock
  markets := fun _ => none
  reserves := fun _ => none
  obligations := fun _ => none
  privates := fun _ => none
  tokens := .empty

end World

/-! ## Constraints -/

/-- `Signer<'info>`: a derived address never signs a transaction. -/
def signer (key : Pubkey) : Result Unit := constrain (key.isWallet) .constraintSigner

/-- `seeds = [..], bump`. -/
def seeds (key derived : Pubkey) : Result Unit := constrain (key = derived) .constraintSeeds

/-- `init`: the account does not exist yet. -/
def vacant {α : Type} (accounts : Pubkey → Option α) (key : Pubkey) : Result Unit :=
  constrain (accounts key).isNone .accountAlreadyInUse

/-- `init_if_needed` on a type with a zeroed default. -/
def loadOrInit {α : Type} [Inhabited α] (accounts : Pubkey → Option α) (key : Pubkey) : α :=
  (accounts key).getD default

theorem signer_eq_ok {key : Pubkey} {u : Unit} : signer key = .ok u ↔ key.isWallet = true :=
  constrain_eq_ok

theorem seeds_eq_ok {key derived : Pubkey} {u : Unit} : seeds key derived = .ok u ↔ key = derived :=
  constrain_eq_ok

theorem vacant_eq_ok {α : Type} {accounts : Pubkey → Option α} {key : Pubkey} {u : Unit} :
    vacant accounts key = .ok u ↔ accounts key = none := by
  rw [vacant, constrain_eq_ok, Option.isNone_iff_eq_none]

namespace World

variable (w : World)

/-- `seeds = [b"lending_market", lending_market.owner]`. -/
def market (key : Pubkey) : Result LendingMarket := do
  let market ← load w.markets key
  seeds key (.lendingMarket market.owner)
  return market

/-- `seeds = [b"lending_market", owner.key()], has_one = owner`, with the owner's signature. -/
def ownedMarket (owner key : Pubkey) : Result LendingMarket := do
  signer owner
  let market ← load w.markets key
  seeds key (.lendingMarket owner)
  constrain (market.owner = owner) .constraintHasOne
  return market

/-- `seeds = [b"reserve", lending_market.key(), reserve_mint.key()]`, with an existing mint. -/
def reserveOf (lendingMarket key reserveMint : Pubkey) : Result Reserve := do
  let reserve ← load w.reserves key
  seeds key (.reserve lendingMarket reserveMint)
  let _ ← load w.tokens.mints reserveMint
  return reserve

/-- `constraint = reserve.load()?.lending_market == lending_market.key()`. -/
def reserveIn (lendingMarket key : Pubkey) : Result Reserve := do
  let reserve ← load w.reserves key
  require (reserve.lendingMarket = lendingMarket) .invalidConfig
  return reserve

/-- `seeds = [b"obligation", lending_market.key(), user.key()]`. -/
def obligationOf (lendingMarket user key : Pubkey) : Result Obligation := do
  let obligation ← load w.obligations key
  seeds key (.obligation lendingMarket user)
  return obligation

/-- `has_one = lending_market`. -/
def obligationIn (lendingMarket key : Pubkey) : Result Obligation := do
  let obligation ← load w.obligations key
  constrain (obligation.lendingMarket = lendingMarket) .constraintHasOne
  return obligation

/-- `seeds = [b"private_obligation", lending_market.key(), user.key()]`. -/
def privateOf (lendingMarket user key : Pubkey) : Result PrivateState := do
  let s ← load w.privates key
  seeds key (.privateObligation lendingMarket user)
  return s

/-- `token::mint = mint`. -/
def tokenAccount (key mint : Pubkey) : Result Unit := do
  let account ← load w.tokens.accounts key
  constrain (account.mint = mint) .constraintTokenMint

/-- `token::mint = mint, token::authority = authority`. -/
def ownTokenAccount (key mint authority : Pubkey) : Result Unit := do
  let account ← load w.tokens.accounts key
  constrain (account.mint = mint) .constraintTokenMint
  constrain (account.authority = authority) .constraintTokenOwner

variable {w} {key lendingMarket reserveMint user mint authority owner : Pubkey}

theorem ownedMarket_eq_ok {m : LendingMarket} : w.ownedMarket owner key = .ok m ↔
    owner.isWallet = true ∧ w.markets key = some m ∧ key = .lendingMarket owner ∧
      m.owner = owner := by
  simp only [ownedMarket, bind_eq_ok, load_eq_ok, signer_eq_ok, seeds_eq_ok, constrain_eq_ok,
    exists_const, pure_eq_ok]
  constructor
  · rintro ⟨hsign, m', hm, hkey, howner, rfl⟩
    exact ⟨hsign, hm, hkey, howner⟩
  · rintro ⟨hsign, hm, hkey, howner⟩
    exact ⟨hsign, m, hm, hkey, howner, rfl⟩

theorem reserveOf_ok {r : Reserve} (h : w.reserveOf lendingMarket key reserveMint = .ok r) :
    w.reserves key = some r ∧ key = .reserve lendingMarket reserveMint := by
  simp only [reserveOf, bind_eq_ok, load_eq_ok, seeds_eq_ok, exists_const, pure_eq_ok] at h
  obtain ⟨r', hr, hkey, m, -, rfl⟩ := h
  exact ⟨hr, hkey⟩

theorem reserveIn_ok {r : Reserve} (h : w.reserveIn lendingMarket key = .ok r) :
    w.reserves key = some r ∧ r.lendingMarket = lendingMarket := by
  simp only [reserveIn, bind_eq_ok, load_eq_ok, require_eq_ok, exists_const, pure_eq_ok] at h
  obtain ⟨r', hr, hmarket, rfl⟩ := h
  exact ⟨hr, hmarket⟩

theorem obligationOf_ok {o : Obligation} (h : w.obligationOf lendingMarket user key = .ok o) :
    w.obligations key = some o ∧ key = .obligation lendingMarket user := by
  simp only [obligationOf, bind_eq_ok, load_eq_ok, seeds_eq_ok, exists_const, pure_eq_ok] at h
  obtain ⟨o', ho, hkey, rfl⟩ := h
  exact ⟨ho, hkey⟩

theorem obligationIn_ok {o : Obligation} (h : w.obligationIn lendingMarket key = .ok o) :
    w.obligations key = some o ∧ o.lendingMarket = lendingMarket := by
  simp only [obligationIn, bind_eq_ok, load_eq_ok, constrain_eq_ok, exists_const,
    pure_eq_ok] at h
  obtain ⟨o', ho, hmarket, rfl⟩ := h
  exact ⟨ho, hmarket⟩

theorem privateOf_ok {s : PrivateState} (h : w.privateOf lendingMarket user key = .ok s) :
    w.privates key = some s ∧ key = .privateObligation lendingMarket user := by
  simp only [privateOf, bind_eq_ok, load_eq_ok, seeds_eq_ok, exists_const, pure_eq_ok] at h
  obtain ⟨s', hs, hkey, rfl⟩ := h
  exact ⟨hs, hkey⟩

end World

end VeilVault
