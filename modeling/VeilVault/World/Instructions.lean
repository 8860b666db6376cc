/-
# VeilVault.World.Instructions — every instruction, on the accounts it is given.

One structure of keys for each `#[derive(Accounts)]` struct (instructions with the same accounts
and constraints share one), its constraints as `check`, and the handler: load, run the ledger part,
store, call the token program.  The steps of the outside world are instructions too: the clock, the
cluster, and what holders do with tokens of their own.
-/
import VeilVault.Kit.Run
import VeilVault.World.State

namespace VeilVault

open Kit

/-! ## Accounts -/

/-- `Deposit`, `Withdraw`. -/
structure LiquidityAccounts where
  depositor : Pubkey
  lendingMarket : Pubkey
  reserve : Pubkey
  reserveMint : Pubkey
  liquidityVault : Pubkey
  collateralMint : Pubkey
  userTokenAccount : Pubkey
  userCollateralAccount : Pubkey

def LiquidityAccounts.check (a : LiquidityAccounts) (w : World) :
    Result (LendingMarket × Reserve) := do
  signer a.depositor
  let market ← w.market a.lendingMarket
  let reserve ← w.reserveOf a.lendingMarket a.reserve a.reserveMint
  seeds a.liquidityVault (.liquidityVault a.reserve)
  seeds a.collateralMint (.collateralMint a.reserve)
  w.ownTokenAccount a.userTokenAccount a.reserveMint a.depositor
  w.ownTokenAccount a.userCollateralAccount a.collateralMint a.depositor
  return (market, reserve)

/-- `DepositCollateral`, `WithdrawCollateral`. -/
structure CollateralAccounts where
  depositor : Pubkey
  lendingMarket : Pubkey
  reserve : Pubkey
  reserveMint : Pubkey
  collateralMint : Pubkey
  userCollateralAccount : Pubkey
  collateralSupplyVault : Pubkey
  obligation : Pubkey

def CollateralAccounts.check (a : CollateralAccounts) (w : World) :
    Result (LendingMarket × Reserve × Obligation) := do
  signer a.depositor
  let market ← w.market a.lendingMarket
  let reserve ← w.reserveOf a.lendingMarket a.reserve a.reserveMint
  seeds a.collateralMint (.collateralMint a.reserve)
  w.ownTokenAccount a.userCollateralAccount a.collateralMint a.depositor
  seeds a.collateralSupplyVault (.collateralSupply a.reserve)
  let obligation ← w.obligationOf a.lendingMarket a.depositor a.obligation
  return (market, reserve, obligation)

/-- `Borrow`, `Repay`. -/
structure DebtAccounts where
  borrower : Pubkey
  lendingMarket : Pubkey
  obligation : Pubkey
  reserve : Pubkey
  reserveMint : Pubkey
  liquidityVault : Pubkey
  userTokenAccount : Pubkey

/-- What `Borrow` and `Repay` both check. -/
def DebtAccounts.check (a : DebtAccounts) (w : World) :
    Result (LendingMarket × Reserve × Obligation) := do
  signer a.borrower
  let market ← w.market a.lendingMarket
  let obligation ← w.obligationOf a.lendingMarket a.borrower a.obligation
  let reserve ← w.reserveOf a.lendingMarket a.reserve a.reserveMint
  seeds a.liquidityVault (.liquidityVault a.reserve)
  w.tokenAccount a.userTokenAccount a.reserveMint
  return (market, reserve, obligation)

/-- `PrivateDepositCollateral`, apart from the computation's accounts. -/
structure PrivateCollateralAccounts extends CollateralAccounts where
  privateObligation : Pubkey

/-- `PrivateBorrow`, apart from the computation's accounts. -/
structure PrivateDebtAccounts extends DebtAccounts where
  privateObligation : Pubkey

/-- `Liquidate`. -/
structure LiquidationAccounts where
  liquidator : Pubkey
  lendingMarket : Pubkey
  obligation : Pubkey
  repayReserve : Pubkey
  repayReserveMint : Pubkey
  repayLiquidityVault : Pubkey
  liquidatorRepayTokenAccount : Pubkey
  withdrawReserve : Pubkey
  withdrawCollateralMint : Pubkey
  collateralSupplyVault : Pubkey
  liquidatorCollateralAccount : Pubkey

/-- What `Liquidate` and `ExecutePrivateLiquidation` both check.  Neither seeds the obligation, and
neither ties the repay mint to the repay reserve. -/
def LiquidationAccounts.check (a : LiquidationAccounts) (w : World) :
    Result (LendingMarket × Obligation) := do
  signer a.liquidator
  let market ← w.market a.lendingMarket
  let obligation ← w.obligationIn a.lendingMarket a.obligation
  let _ ← w.reserveIn a.lendingMarket a.repayReserve
  let _ ← load w.tokens.mints a.repayReserveMint
  seeds a.repayLiquidityVault (.liquidityVault a.repayReserve)
  w.tokenAccount a.liquidatorRepayTokenAccount a.repayReserveMint
  let _ ← w.reserveIn a.lendingMarket a.withdrawReserve
  seeds a.withdrawCollateralMint (.collateralMint a.withdrawReserve)
  seeds a.collateralSupplyVault (.collateralSupply a.withdrawReserve)
  w.tokenAccount a.liquidatorCollateralAccount a.withdrawCollateralMint
  return (market, obligation)

/-- `ExecutePrivateLiquidation`. -/
structure PrivateLiquidationAccounts extends LiquidationAccounts where
  obligationOwner : Pubkey
  privateObligation : Pubkey

/-- `AddReserve`. -/
structure AddReserveAccounts where
  owner : Pubkey
  lendingMarket : Pubkey
  reserve : Pubkey
  reserveMint : Pubkey
  liquidityVault : Pubkey
  feeVault : Pubkey
  collateralMint : Pubkey
  collateralSupplyVault : Pubkey

namespace World

variable (w : World)

/-! ## Markets -/

def initializeMarket (owner key : Pubkey) (protocolFeeBps : U16) : Result World := do
  signer owner
  vacant w.markets key
  seeds key (.lendingMarket owner)
  require (protocolFeeBps ≤ maxProtocolFeeBps) .invalidFee
  return { w with markets := store w.markets key (.init owner protocolFeeBps) }

def setPause (owner key : Pubkey) (paused : Bool) : Result World := do
  let market ← w.ownedMarket owner key
  return { w with markets := store w.markets key (market.setEmergencyPause paused) }

/-- The account keeps its address: its seeds name the first owner. -/
def updateMarketAuthority (owner key newAuthority : Pubkey) : Result World := do
  let market ← w.ownedMarket owner key
  return { w with markets := store w.markets key { market with owner := newAuthority } }

/-! ## Reserves -/

def addReserve (a : AddReserveAccounts) (config : InitReserveConfigParams) : Result World := do
  let market ← w.ownedMarket a.owner a.lendingMarket
  require (market.isPaused = false) .invalidConfig
  vacant w.reserves a.reserve
  seeds a.reserve (.reserve a.lendingMarket a.reserveMint)
  seeds a.liquidityVault (.liquidityVault a.reserve)
  let tokens ← cpi (w.tokens.openAccount a.liquidityVault a.reserveMint a.lendingMarket)
  seeds a.feeVault (.feeVault a.reserve)
  let tokens ← cpi (tokens.openAccount a.feeVault a.reserveMint a.lendingMarket)
  seeds a.collateralMint (.collateralMint a.reserve)
  let tokens ← cpi (tokens.openMint a.collateralMint a.lendingMarket)
  seeds a.collateralSupplyVault (.collateralSupply a.reserve)
  let tokens ← cpi (tokens.openAccount a.collateralSupplyVault a.collateralMint a.lendingMarket)
  let reserve ← Reserve.create w.clock.slot a.lendingMarket a.reserve a.reserveMint config
  return { w with reserves := store w.reserves a.reserve reserve, tokens }

def updateReserveConfig (owner lendingMarket reserveMint key : Pubkey)
    (newConfig : InitReserveConfigParams) : Result World := do
  let _ ← w.ownedMarket owner lendingMarket
  let reserve ← w.reserveOf lendingMarket key reserveMint
  constrain (reserve.lendingMarket = lendingMarket) .constraintHasOne
  let reserve ← reserve.updateConfig newConfig
  return { w with reserves := store w.reserves key reserve }

/-- The price account is passed by the caller, as its key and what it deserialises to. -/
def refreshReserve (lendingMarket key priceKey : Pubkey) (priceUpdate : Option PriceUpdate) :
    Result World := do
  let _ ← w.market lendingMarket
  let reserve ← w.reserveIn lendingMarket key
  let reserve ← Ledger.refreshReserve w.clock reserve priceKey priceUpdate
  return { w with reserves := store w.reserves key reserve }

def deposit (a : LiquidityAccounts) (amount : U64) : Result World := do
  let (market, reserve) ← a.check w
  let (reserve, collateralAmount) ← Ledger.deposit market w.clock reserve amount
  let tokens ← cpi (w.tokens.transfer a.userTokenAccount a.reserveMint a.liquidityVault
    a.depositor amount)
  let tokens ← cpi (tokens.mintTo a.collateralMint a.userCollateralAccount a.lendingMarket
    collateralAmount)
  return { w with reserves := store w.reserves a.reserve reserve, tokens }

def withdraw (a : LiquidityAccounts) (collateralAmount : U64) : Result World := do
  let (market, reserve) ← a.check w
  let (reserve, liquidityAmount) ← Ledger.withdraw market w.clock reserve collateralAmount
  let tokens ← cpi (w.tokens.burn a.collateralMint a.userCollateralAccount a.depositor
    collateralAmount)
  let tokens ← cpi (tokens.transfer a.liquidityVault a.reserveMint a.userTokenAccount
    a.lendingMarket liquidityAmount)
  return { w with reserves := store w.reserves a.reserve reserve, tokens }

/-! ## Obligations -/

def initObligation (owner lendingMarket key : Pubkey) : Result World := do
  signer owner
  let _ ← w.market lendingMarket
  vacant w.obligations key
  seeds key (.obligation lendingMarket owner)
  return { w with obligations := store w.obligations key (.init owner lendingMarket) }

/-- `remaining_accounts` are the keys the reserves are looked up among. -/
def refreshObligation (lendingMarket key : Pubkey) (remainingAccounts : List Pubkey) :
    Result World := do
  let _ ← load w.markets lendingMarket
  let obligation ← w.obligationIn lendingMarket key
  let obligation ← Ledger.refreshObligation w.reserves remainingAccounts w.clock obligation
  return { w with obligations := store w.obligations key obligation }

def depositCollateral (a : CollateralAccounts) (collateralAmount : U64) : Result World := do
  let (market, reserve, obligation) ← a.check w
  let obligation ←
    Ledger.depositCollateral market a.reserve reserve obligation collateralAmount
  let tokens ← cpi (w.tokens.transfer a.userCollateralAccount a.collateralMint
    a.collateralSupplyVault a.depositor collateralAmount)
  return { w with obligations := store w.obligations a.obligation obligation, tokens }

def withdrawCollateral (a : CollateralAccounts) (collateralAmount : U64) : Result World := do
  let (market, _, obligation) ← a.check w
  let obligation ←
    Ledger.withdrawCollateral market w.clock a.reserve obligation collateralAmount
  let tokens ← cpi (w.tokens.transfer a.collateralSupplyVault a.collateralMint
    a.userCollateralAccount a.lendingMarket collateralAmount)
  return { w with obligations := store w.obligations a.obligation obligation, tokens }

def borrow (a : DebtAccounts) (amount : U64) : Result World := do
  let (market, reserve, obligation) ← a.check w
  let (reserve, obligation) ←
    Ledger.borrow market w.clock a.reserve reserve obligation amount
  let tokens ← cpi (w.tokens.transfer a.liquidityVault a.reserveMint a.userTokenAccount
    a.lendingMarket amount)
  return { w with
    reserves := store w.reserves a.reserve reserve
    obligations := store w.obligations a.obligation obligation
    tokens }

def repay (a : DebtAccounts) (amount : U64) : Result World := do
  let (_, reserve, obligation) ← a.check w
  w.ownTokenAccount a.userTokenAccount a.reserveMint a.borrower
  let (reserve, obligation) ← Ledger.repay w.clock a.reserve reserve obligation amount
  let tokens ← cpi (w.tokens.transfer a.userTokenAccount a.reserveMint a.liquidityVault
    a.borrower amount)
  return { w with
    reserves := store w.reserves a.reserve reserve
    obligations := store w.obligations a.obligation obligation
    tokens }

/-- The token transfers of a liquidation, after its ledger part. -/
def settleSeizure (a : LiquidationAccounts) (s : Ledger.Seizure) : Result World := do
  let tokens ← cpi (w.tokens.transfer a.liquidatorRepayTokenAccount a.repayReserveMint
    a.repayLiquidityVault a.liquidator s.actualRepay)
  let tokens ← cpi (tokens.transfer a.collateralSupplyVault a.withdrawCollateralMint
    a.liquidatorCollateralAccount a.lendingMarket s.ctokensToSeize)
  return { w with
    reserves := s.reserves
    obligations := store w.obligations a.obligation s.obligation
    tokens }

def liquidate (a : LiquidationAccounts) (repayAmount : U64) : Result World := do
  let (market, obligation) ← a.check w
  let s ← Ledger.liquidate market w.clock a.repayReserve a.withdrawReserve w.reserves obligation
    repayAmount
  w.settleSeizure a s

/-! ## Private obligations -/

def initPrivateObligation (payer lendingMarket key : Pubkey) : Result World := do
  signer payer
  let _ ← w.market lendingMarket
  seeds key (.privateObligation lendingMarket payer)
  let s ← (loadOrInit w.privates key).initPrivateObligation payer lendingMarket
  return { w with privates := store w.privates key s }

def privateDepositCollateral (a : PrivateCollateralAccounts) (collateralAmount : U64)
    (encryptedAmount : SharedAmount) : Result World := do
  let (market, reserve, obligation) ← a.check w
  let s ← w.privateOf a.lendingMarket a.depositor a.privateObligation
  require (s.account.owner = a.depositor) .invalidConfig
  let obligation ← Ledger.privateDepositCollateral market s.account.isInitialized a.reserve
    reserve obligation collateralAmount
  let tokens ← cpi (w.tokens.transfer a.userCollateralAccount a.collateralMint
    a.collateralSupplyVault a.depositor collateralAmount)
  let s ← s.privateDepositCollateral a.reserve encryptedAmount
  return { w with
    obligations := store w.obligations a.obligation obligation
    privates := store w.privates a.privateObligation s
    tokens }

def privateBorrow (a : PrivateDebtAccounts) (amount : U64) (encryptedAmount : SharedAmount) :
    Result World := do
  let (market, reserve, obligation) ← a.check w
  let s ← w.privateOf a.lendingMarket a.borrower a.privateObligation
  let (reserve, obligation) ← Ledger.privateBorrow market s.account.isInitialized w.clock
    a.reserve reserve obligation amount
  let tokens ← cpi (w.tokens.transfer a.liquidityVault a.reserveMint a.userTokenAccount
    a.lendingMarket amount)
  let s ← s.privateBorrow a.reserve encryptedAmount
  return { w with
    reserves := store w.reserves a.reserve reserve
    obligations := store w.obligations a.obligation obligation
    privates := store w.privates a.privateObligation s
    tokens }

def privateCheckLiquidatable (liquidator lendingMarket obligationOwner key : Pubkey)
    (exchangeRateBps collateralPriceCents borrowPriceCents ltvBps : U64) : Result World := do
  signer liquidator
  let _ ← w.market lendingMarket
  let s ← w.privateOf lendingMarket obligationOwner key
  let s ← s.privateCheckLiquidatable exchangeRateBps collateralPriceCents borrowPriceCents ltvBps
  return { w with privates := store w.privates key s }

/-- The flag belongs to the private obligation of `obligation_owner`; the obligation that is seized
is any one of the same market. -/
def executePrivateLiquidation (a : PrivateLiquidationAccounts) (repayAmount : U64) :
    Result World := do
  let (market, obligation) ← a.check w
  let s ← w.privateOf a.lendingMarket a.obligationOwner a.privateObligation
  w.ownTokenAccount a.liquidatorRepayTokenAccount a.repayReserveMint a.liquidator
  let seizure ← Ledger.executePrivateLiquidation market s.account.isLiquidatable w.clock
    a.repayReserve a.withdrawReserve w.reserves obligation repayAmount
  let w ← w.settleSeizure a.toLiquidationAccounts seizure
  return { w with privates := store w.privates a.privateObligation s.clearFlag }

/-! ## The outside world -/

/-- Time passes. -/
def advanceClock (clock : Clock) : Result World := do
  require (w.clock.slot ≤ clock.slot) .zeroSlotsElapsed
  require (w.clock.unixTimestamp ≤ clock.unixTimestamp) .zeroSlotsElapsed
  return { w with clock }

/-- The cluster executes a queued computation. -/
def executeComputation (mxe : Mxe) (key : Pubkey) (i : Nat) (fresh : U128) : Result World := do
  let s ← load w.privates key
  return { w with privates := store w.privates key (s.execute mxe i fresh) }

/-- A callback with a verified output. -/
def callback (key : Pubkey) (i : Nat) : Result World := do
  let s ← load w.privates key
  return { w with privates := store w.privates key (s.deliver i) }

/-- A computation is aborted or expires; what its callback would have written is rolled back. -/
def abortComputation (key : Pubkey) (executed : Bool) (i : Nat) : Result World := do
  let s ← load w.privates key
  return { w with privates := store w.privates key (s.abort executed i) }

/-- Someone creates a mint at a key of their own. -/
def openMint (key authority : Pubkey) : Result World := do
  signer key
  let tokens ← cpi (w.tokens.openMint key authority)
  return { w with tokens }

/-- Someone creates a token account at a key of their own. -/
def openTokenAccount (key mint authority : Pubkey) : Result World := do
  signer key
  let tokens ← cpi (w.tokens.openAccount key mint authority)
  return { w with tokens }

/-- A mint's authority issues tokens. -/
def mintTokens (mint destination authority : Pubkey) (amount : U64) : Result World := do
  signer authority
  let tokens ← cpi (w.tokens.mintTo mint destination authority amount)
  return { w with tokens }

/-- A holder moves tokens, to a vault perhaps. -/
def transferTokens (source mint destination authority : Pubkey) (amount : U64) :
    Result World := do
  signer authority
  let tokens ← cpi (w.tokens.transfer source mint destination authority amount)
  return { w with tokens }

/-- A holder burns tokens. -/
def burnTokens (mint source authority : Pubkey) (amount : U64) : Result World := do
  signer authority
  let tokens ← cpi (w.tokens.burn mint source authority amount)
  return { w with tokens }

end World

/-! ## Transactions -/

/-- An instruction with its accounts and arguments, or a step of the outside world. -/
inductive Instruction
  | initializeMarket (owner key : Pubkey) (protocolFeeBps : U16)
  | setPause (owner key : Pubkey) (paused : Bool)
  | updateMarketAuthority (owner key newAuthority : Pubkey)
  | addReserve (a : AddReserveAccounts) (config : InitReserveConfigParams)
  | updateReserveConfig (owner lendingMarket reserveMint key : Pubkey)
      (newConfig : InitReserveConfigParams)
  | refreshReserve (lendingMarket key priceKey : Pubkey) (priceUpdate : Option PriceUpdate)
  | deposit (a : LiquidityAccounts) (amount : U64)
  | withdraw (a : LiquidityAccounts) (collateralAmount : U64)
  | initObligation (owner lendingMarket key : Pubkey)
  | refreshObligation (lendingMarket key : Pubkey) (remainingAccounts : List Pubkey)
  | depositCollateral (a : CollateralAccounts) (collateralAmount : U64)
  | withdrawCollateral (a : CollateralAccounts) (collateralAmount : U64)
  | borrow (a : DebtAccounts) (amount : U64)
  | repay (a : DebtAccounts) (amount : U64)
  | liquidate (a : LiquidationAccounts) (repayAmount : U64)
  | initPrivateObligation (payer lendingMarket key : Pubkey)
  | privateDepositCollateral (a : PrivateCollateralAccounts) (collateralAmount : U64)
      (encryptedAmount : SharedAmount)
  | privateBorrow (a : PrivateDebtAccounts) (amount : U64) (encryptedAmount : SharedAmount)
  | privateCheckLiquidatable (liquidator lendingMarket obligationOwner key : Pubkey)
      (exchangeRateBps collateralPriceCents borrowPriceCents ltvBps : U64)
  | executePrivateLiquidation (a : PrivateLiquidationAccounts) (repayAmount : U64)
  | advanceClock (clock : Clock)
  | executeComputation (key : Pubkey) (i : Nat) (fresh : U128)
  | callback (key : Pubkey) (i : Nat)
  | abortComputation (key : Pubkey) (executed : Bool) (i : Nat)
  | openMint (key authority : Pubkey)
  | openTokenAccount (key mint authority : Pubkey)
  | mintTokens (mint destination authority : Pubkey) (amount : U64)
  | transferTokens (source mint destination authority : Pubkey) (amount : U64)
  | burnTokens (mint source authority : Pubkey) (amount : U64)

namespace World

variable (mxe : Mxe) (w : World)

def exec : Instruction → Result World
  | .initializeMarket owner key fee => w.initializeMarket owner key fee
  | .setPause owner key paused => w.setPause owner key paused
  | .updateMarketAuthority owner key newAuthority => w.updateMarketAuthority owner key newAuthority
  | .addReserve a config => w.addReserve a config
  | .updateReserveConfig owner market mint key config =>
      w.updateReserveConfig owner market mint key config
  | .refreshReserve market key priceKey update => w.refreshReserve market key priceKey update
  | .deposit a amount => w.deposit a amount
  | .withdraw a amount => w.withdraw a amount
  | .initObligation owner market key => w.initObligation owner market key
  | .refreshObligation market key accounts => w.refreshObligation market key accounts
  | .depositCollateral a amount => w.depositCollateral a amount
  | .withdrawCollateral a amount => w.withdrawCollateral a amount
  | .borrow a amount => w.borrow a amount
  | .repay a amount => w.repay a amount
  | .liquidate a amount => w.liquidate a amount
  | .initPrivateObligation payer market key => w.initPrivateObligation payer market key
  | .privateDepositCollateral a amount encrypted => w.privateDepositCollateral a amount encrypted
  | .privateBorrow a amount encrypted => w.privateBorrow a amount encrypted
  | .privateCheckLiquidatable liquidator market owner key rate cprice bprice ltv =>
      w.privateCheckLiquidatable liquidator market owner key rate cprice bprice ltv
  | .executePrivateLiquidation a amount => w.executePrivateLiquidation a amount
  | .advanceClock clock => w.advanceClock clock
  | .executeComputation key i fresh => w.executeComputation mxe key i fresh
  | .callback key i => w.callback key i
  | .abortComputation key executed i => w.abortComputation key executed i
  | .openMint key authority => w.openMint key authority
  | .openTokenAccount key mint authority => w.openTokenAccount key mint authority
  | .mintTokens mint destination authority amount =>
      w.mintTokens mint destination authority amount
  | .transferTokens source mint destination authority amount =>
      w.transferTokens source mint destination authority amount
  | .burnTokens mint source authority amount => w.burnTokens mint source authority amount

/-- A transaction: the instruction's result, or the old world when it fails. -/
def tx (w : World) (ix : Instruction) : World := attemptStep (exec mxe) w ix

end World

end VeilVault
