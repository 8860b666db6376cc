/-
# VeilVault.Private.Machine — one private obligation and its computations.

A private update takes two transactions and a computation between them.  The first transaction
passes the stored nonce *by value* and the ciphertexts *by reference*; the cluster reads the
account when it executes, and the callback overwrites ciphertexts and nonce, whatever they are by
then.  Nothing orders the computations in flight: any queued one may execute next, any executed one
may be delivered next.  A cluster that reads the account at queue time is the same machine, with
each execution directly after its queueing.  A computation may also be aborted, or expire: then its
callback gets no verified output and fails, and nothing is written.
-/
import VeilVault.Private.Circuits

namespace VeilVault

open Kit

/-! ## Computations -/

/-- A circuit with its arguments, apart from the state. -/
inductive Circuit
  | initPosition
  | addCollateral (amount : SharedAmount)
  | addBorrow (amount : SharedAmount)
  | checkHealth (exchangeRateBps collateralPriceCents borrowPriceCents ltvBps : U64)
  deriving DecidableEq, Repr

/-- A queued computation: the nonce is the one the account held when it was queued. -/
structure Computation where
  circuit : Circuit
  nonce : U128
  deriving DecidableEq, Repr

/-- What a computation hands to its callback. -/
inductive Output
  | initPosition (encState : EncState) (nonce : U128)
  | addCollateral (encState : EncState) (nonce : U128)
  | addBorrow (encState : EncState) (nonce : U128)
  | checkHealth (isHealthy : Bool)
  deriving DecidableEq, Repr

/-- Run a circuit on the ciphertexts as they stand, and encrypt the result under a fresh nonce. -/
def Mxe.run (mxe : Mxe) (c : Computation) (encState : EncState) (fresh : U128) : Output :=
  match c.circuit with
  | .initPosition => .initPosition (mxe.encrypt fresh Circuits.initPositionV2) fresh
  | .addCollateral amount =>
      let p := Circuits.addCollateralV2 (mxe.openShared amount) (mxe.decrypt c.nonce encState)
      .addCollateral (mxe.encrypt fresh p) fresh
  | .addBorrow amount =>
      let p := Circuits.addBorrowV2 (mxe.openShared amount) (mxe.decrypt c.nonce encState)
      .addBorrow (mxe.encrypt fresh p) fresh
  | .checkHealth rate collateralPrice borrowPrice ltv =>
      .checkHealth (Circuits.checkHealthV2 (mxe.decrypt c.nonce encState) rate collateralPrice
        borrowPrice ltv)

namespace PrivateObligation

/-! ## Callbacks -/

def initPositionV2Callback (p : PrivateObligation) (encState : EncState) (nonce : U128) :
    PrivateObligation :=
  { p with encState, nonce, isInitialized := true }

def addCollateralV2Callback (p : PrivateObligation) (encState : EncState) (nonce : U128) :
    PrivateObligation :=
  { p with encState, nonce }

def addBorrowV2Callback (p : PrivateObligation) (encState : EncState) (nonce : U128) :
    PrivateObligation :=
  { p with encState, nonce }

/-- The flag is set exactly when the circuit says unhealthy. -/
def checkHealthV2Callback (p : PrivateObligation) (isHealthy : Bool) : PrivateObligation :=
  { p with isLiquidatable := !isHealthy }

/-- The callback of a verified output. -/
def callback (p : PrivateObligation) : Output → PrivateObligation
  | .initPosition encState nonce => p.initPositionV2Callback encState nonce
  | .addCollateral encState nonce => p.addCollateralV2Callback encState nonce
  | .addBorrow encState nonce => p.addBorrowV2Callback encState nonce
  | .checkHealth isHealthy => p.checkHealthV2Callback isHealthy

end PrivateObligation

/-! ## The machine -/

/-- A private obligation with what is in flight for it: computations not executed yet, and outputs
not delivered yet. -/
structure PrivateState where
  account : PrivateObligation
  queued : List Computation
  outputs : List Output
  deriving DecidableEq, Repr

instance : Inhabited PrivateState := ⟨⟨default, [], []⟩⟩

namespace PrivateState

/-- `queue_computation` with the account's nonce. -/
def queue (s : PrivateState) (circuit : Circuit) : PrivateState :=
  { s with queued := s.queued ++ [{ circuit, nonce := s.account.nonce }] }

/-- `init_private_obligation`. -/
def initPrivateObligation (s : PrivateState) (owner lendingMarket : Pubkey) :
    Result PrivateState := do
  require (s.account.isInitialized = false) .alreadyInitialized
  let account :=
    { s.account with
      owner, lendingMarket, collateralReserve := default, borrowReserve := default
      isInitialized := false, isLiquidatable := false }
  return { s with account }.queue .initPosition

/-- What `private_deposit_collateral` does to the private obligation. -/
def privateDepositCollateral (s : PrivateState) (reserveKey : Pubkey) (amount : SharedAmount) :
    Result PrivateState := do
  require (s.account.isInitialized) .privateObligationNotInitialized
  let account :=
    if s.account.collateralReserve = default then
      { s.account with collateralReserve := reserveKey }
    else s.account
  return { s with account }.queue (.addCollateral amount)

/-- What `private_borrow` does to the private obligation. -/
def privateBorrow (s : PrivateState) (reserveKey : Pubkey) (amount : SharedAmount) :
    Result PrivateState := do
  require (s.account.isInitialized) .privateObligationNotInitialized
  let account :=
    if s.account.borrowReserve = default then
      { s.account with borrowReserve := reserveKey }
    else s.account
  return { s with account }.queue (.addBorrow amount)

/-- `private_check_liquidatable`: the public numbers come from the caller. -/
def privateCheckLiquidatable (s : PrivateState)
    (exchangeRateBps collateralPriceCents borrowPriceCents ltvBps : U64) :
    Result PrivateState := do
  require (s.account.isInitialized) .privateObligationNotInitialized
  return s.queue (.checkHealth exchangeRateBps collateralPriceCents borrowPriceCents ltvBps)

/-- The last line of `execute_private_liquidation`. -/
def clearFlag (s : PrivateState) : PrivateState :=
  { s with account := { s.account with isLiquidatable := false } }

/-- The cluster executes the `i`-th queued computation. -/
def execute (mxe : Mxe) (s : PrivateState) (i : Nat) (fresh : U128) : PrivateState :=
  match s.queued[i]? with
  | some c =>
      { s with
        queued := s.queued.eraseIdx i
        outputs := s.outputs ++ [mxe.run c s.account.encState fresh] }
  | none => s

/-- The callback of the `i`-th output runs. -/
def deliver (s : PrivateState) (i : Nat) : PrivateState :=
  match s.outputs[i]? with
  | some out => { s with account := s.account.callback out, outputs := s.outputs.eraseIdx i }
  | none => s

/-- The `i`-th queued computation, or the `i`-th output, is lost: `verify_output` fails, the
callback returns `AbortedComputation`, and the account stays as it is. -/
def abort (s : PrivateState) (executed : Bool) (i : Nat) : PrivateState :=
  if executed then { s with outputs := s.outputs.eraseIdx i }
  else { s with queued := s.queued.eraseIdx i }

end PrivateState

end VeilVault
