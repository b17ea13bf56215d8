/-
The fee AMM of the fee manager: directional pools of two tokens with fixed
prices, LP shares over them, and the routes a fee can take.  Pool identifiers
are modelled by the token pairs they are the hash of.
-/
import Tempo.Tip20.World

namespace Tempo

open Function

/-- Identifies a directional token pair in the fee AMM. -/
structure PoolKey where
  userToken : Address
  validatorToken : Address
  deriving DecidableEq

@[ext]
structure Pool where
  reserveUserToken : Nat
  reserveValidatorToken : Nat
  deriving DecidableEq

/-- Storage of the fee manager; the last two fields are transient. -/
structure FeeManager where
  validatorTokens : Address → Address
  userTokens : Address → Address
  collectedFees : Address → Address → Nat
  pools : PoolKey → Pool
  totalSupply : PoolKey → Nat
  liquidityBalances : PoolKey → Address → Nat
  pendingFeeSwapReservation : PoolKey → Nat
  twoHopIntermediate : Address

/-- The fee manager and the tokens it holds. -/
structure FeeWorld where
  tokens : TokenWorld
  manager : FeeManager

def FeeManager.empty : FeeManager where
  validatorTokens _ := 0
  userTokens _ := 0
  collectedFees _ _ := 0
  pools _ := ⟨0, 0⟩
  totalSupply _ := 0
  liquidityBalances _ _ := 0
  pendingFeeSwapReservation _ := 0
  twoHopIntermediate := 0

/-- Fee multiplier of fee swaps, over `scale`. -/
def feeSwapRate : Nat := 9970

/-- Fee multiplier of rebalance swaps, over `scale`. -/
def rebalanceRate : Nat := 9985

def scale : Nat := 10000

/-- Locked for good when a pool is initialised. -/
def minLiquidity : Nat := 1000

inductive FeeRoute where
  | sameToken
  | direct
  | twoHop (intermediate : Address)
  deriving DecidableEq

namespace FeeWorld

/-- A computation on the tokens. -/
def onTokens {α : Type} (m : Exec TokenWorld α) : Exec FeeWorld α :=
  focus (fun w => w.tokens) (fun w tokens => { w with tokens }) m

/-- A write to the manager's storage. -/
def write (f : FeeManager → FeeManager) : Exec FeeWorld Unit :=
  updates fun w => { w with manager := f w.manager }

def query {α : Type} (f : FeeManager → α) : Exec FeeWorld α :=
  reads fun w => f w.manager

end FeeWorld

namespace FeeManager

def putPool (m : FeeManager) (key : PoolKey) (pool : Pool) : FeeManager :=
  { m with pools := update m.pools key pool }

def putTotalSupply (m : FeeManager) (key : PoolKey) (value : Nat) : FeeManager :=
  { m with totalSupply := update m.totalSupply key value }

def putLiquidityBalance (m : FeeManager) (key : PoolKey) (user : Address)
    (value : Nat) : FeeManager :=
  { m with
    liquidityBalances := update m.liquidityBalances key
      (update (m.liquidityBalances key) user value) }

end FeeManager

namespace TipFeeManager

open FeeWorld

variable (env : Env)

def onTip20 {α : Type} (token : Address) (m : Exec TokenCtx α) : Exec FeeWorld α :=
  onTokens (do Tip20.fromAddress token; onToken token m)

/-- Output of a fee swap, rounded down. -/
def computeAmountOut (amountIn : Nat) : Option Nat :=
  (checkedMul 256 amountIn feeSwapRate).map fun product => product / scale

/-- Fails unless the token is denominated in USD. -/
def validateUsdCurrency (token : Address) : Exec FeeWorld Unit :=
  onTokens do
    Tip20.fromAddress token
    let currency ← Tip20.getCurrency token
    require (currency = usdCurrency) (.tip20 .invalidCurrency)

def reservePoolLiquidity (key : PoolKey) (amount : Nat) : Exec FeeWorld Unit :=
  write fun m => { m with
    pendingFeeSwapReservation := update m.pendingFeeSwapReservation key amount }

/-- From T1C on, what is left must cover the pending reservation. -/
def checkReservation (key : PoolKey) (remaining : Nat) : Exec FeeWorld Unit :=
  if .t1c ≤ env.spec then do
    let reserved ← query fun m => m.pendingFeeSwapReservation key
    require (¬remaining < reserved) (.tipFeeAMM .insufficientLiquidity)
  else pure ()

/-- Sells user token out of the pool for validator token. -/
def rebalanceSwap (msgSender userToken validatorToken : Address)
    (amountOut : Nat) (to' : Address) : Exec FeeWorld Nat := do
  require (amountOut ≠ 0) (.tipFeeAMM .invalidAmount)
  let key : PoolKey := ⟨userToken, validatorToken⟩
  let pool ← query fun m => m.pools key
  let amountIn ← orFail ((checkedMul 256 amountOut rebalanceRate).bind
    fun product => (checkedDiv product scale).bind
      fun result => checkedAdd 256 result 1) .underOverflow
  let amountIn ← orFail (tryInto 128 amountIn) (.tipFeeAMM .invalidAmount)
  let amountOut ← orFail (tryInto 128 amountOut) (.tipFeeAMM .invalidAmount)
  let reserveValidatorToken ← orFail (checkedAdd 128 pool.reserveValidatorToken amountIn)
    (.tipFeeAMM .insufficientReserves)
  let reserveUserToken ← orFail (checkedSub pool.reserveUserToken amountOut)
    (.tipFeeAMM .invalidAmount)
  checkReservation env key reserveValidatorToken
  write fun m => m.putPool key ⟨reserveUserToken, reserveValidatorToken⟩
  let _ ← onTip20 validatorToken (Tip20.systemTransferFrom env validatorToken
    tipFeeManagerAddress msgSender amountIn)
  let _ ← onTip20 userToken (Tip20.transfer env userToken tipFeeManagerAddress to' amountOut)
  pure amountIn

/-- LP shares for a deposit into a pool that is already initialised, as if
the depositor had rebalanced first. -/
def subsequentLiquidity (pool : Pool) (totalSupply amount : Nat) : Exec FeeWorld Nat := do
  let product ← orFail ((checkedMul 256 rebalanceRate
    pool.reserveUserToken).bind fun product => checkedDiv product scale)
    (.tipFeeAMM .invalidSwapCalculation)
  let denom ← orFail (checkedAdd 256 pool.reserveValidatorToken product) (.tipFeeAMM .invalidAmount)
  require (denom ≠ 0) (.tipFeeAMM .divisionByZero)
  orFail ((checkedMul 256 amount totalSupply).bind fun numerator => checkedDiv numerator denom)
    (.tipFeeAMM .invalidSwapCalculation)

/-- LP shares for the first deposit; writes the locked supply. -/
def initialLiquidity (key : PoolKey) (totalSupply amount : Nat) : Exec FeeWorld (Nat × Nat) := do
  let halfAmount ← orFail (checkedDiv amount 2) .underOverflow
  require (¬halfAmount ≤ minLiquidity) (.tipFeeAMM .insufficientLiquidity)
  let totalSupply ← orFail (checkedAdd 256 totalSupply minLiquidity) .underOverflow
  write fun m => m.putTotalSupply key totalSupply
  let liquidity ← orFail (checkedSub halfAmount minLiquidity) (.tipFeeAMM .insufficientLiquidity)
  pure (liquidity, totalSupply)

/-- LP shares for a deposit, and the supply they are added to; the reserves
alone decide whether it is the first one. -/
def mintLiquidity (key : PoolKey) (pool : Pool) (totalSupply amount : Nat) :
    Exec FeeWorld (Nat × Nat) :=
  if pool.reserveUserToken = 0 ∧ pool.reserveValidatorToken = 0 then
    initialLiquidity key totalSupply amount
  else do
    let liquidity ← subsequentLiquidity pool totalSupply amount
    pure (liquidity, totalSupply)

/-- T8+: who may deposit and receive shares under the tokens' policies. -/
def authorizeMint (msgSender userToken validatorToken to' : Address) : Exec FeeWorld Unit := do
  onTip20 userToken do
    Tip20.ensureAuthorizedAs env userToken msgSender .sender
    Tip20.ensureAuthorizedAs env userToken tipFeeManagerAddress .recipient
    Tip20.ensureAuthorizedAs env userToken to' .recipient
  onTip20 validatorToken (Tip20.ensureAuthorizedAs env validatorToken to' .recipient)

def mint (msgSender userToken validatorToken : Address)
    (amountValidatorToken : Nat) (to' : Address) : Exec FeeWorld Nat := do
  require (userToken ≠ validatorToken) (.tipFeeAMM .identicalAddresses)
  require (amountValidatorToken ≠ 0) (.tipFeeAMM .invalidAmount)
  validateUsdCurrency userToken
  validateUsdCurrency validatorToken
  if .t8 ≤ env.spec then
    authorizeMint env msgSender userToken validatorToken to'
  else pure ()
  let key : PoolKey := ⟨userToken, validatorToken⟩
  let pool ← query fun m => m.pools key
  let totalSupply ← query fun m => m.totalSupply key
  let minted ← mintLiquidity key pool totalSupply amountValidatorToken
  require (minted.1 ≠ 0) (.tipFeeAMM .insufficientLiquidity)
  let _ ← onTip20 validatorToken (Tip20.systemTransferFrom env validatorToken
    tipFeeManagerAddress msgSender amountValidatorToken)
  let validatorAmount ← orFail (tryInto 128 amountValidatorToken) (.tipFeeAMM .invalidAmount)
  let reserveValidatorToken ← orFail (checkedAdd 128 pool.reserveValidatorToken validatorAmount)
    (.tipFeeAMM .invalidAmount)
  write fun m => m.putPool key ⟨pool.reserveUserToken, reserveValidatorToken⟩
  let newSupply ← orFail (checkedAdd 256 minted.2 minted.1) .underOverflow
  write fun m => m.putTotalSupply key newSupply
  let balance ← query fun m => m.liquidityBalances key to'
  let newBalance ← orFail (checkedAdd 256 balance minted.1) .underOverflow
  write fun m => m.putLiquidityBalance key to' newBalance
  pure minted.1

def calculateBurnAmounts (pool : Pool) (key : PoolKey) (liquidity : Nat) :
    Exec FeeWorld (Nat × Nat) := do
  let totalSupply ← query fun m => m.totalSupply key
  let amountUserToken ← orFail ((checkedMul 256 liquidity pool.reserveUserToken).bind
      fun product => checkedDiv product totalSupply) .underOverflow
  let amountValidatorToken ← orFail ((checkedMul 256 liquidity pool.reserveValidatorToken).bind
      fun product => checkedDiv product totalSupply) .underOverflow
  pure (amountUserToken, amountValidatorToken)

/-- T8+: the holder must be allowed to send both tokens. -/
def authorizeBurn (msgSender userToken validatorToken : Address) : Exec FeeWorld Unit := do
  onTip20 userToken (Tip20.ensureAuthorizedAs env userToken msgSender .sender)
  onTip20 validatorToken (Tip20.ensureAuthorizedAs env validatorToken msgSender .sender)

/-- Redeems LP shares for both tokens pro rata. -/
def burn (msgSender userToken validatorToken : Address) (liquidity : Nat)
    (to' : Address) : Exec FeeWorld (Nat × Nat) := do
  require (userToken ≠ validatorToken) (.tipFeeAMM .identicalAddresses)
  require (liquidity ≠ 0) (.tipFeeAMM .invalidAmount)
  validateUsdCurrency userToken
  validateUsdCurrency validatorToken
  if .t8 ≤ env.spec then authorizeBurn env msgSender userToken validatorToken
  else pure ()
  let key : PoolKey := ⟨userToken, validatorToken⟩
  let balance ← query fun m => m.liquidityBalances key msgSender
  require (¬balance < liquidity) (.tipFeeAMM .insufficientLiquidity)
  let pool ← query fun m => m.pools key
  let amounts ← calculateBurnAmounts pool key liquidity
  let validatorAmount ← orFail (tryInto 128 amounts.2) (.tipFeeAMM .invalidAmount)
  let availableAfterBurn ← orFail (checkedSub pool.reserveValidatorToken validatorAmount)
    (.tipFeeAMM .insufficientReserves)
  checkReservation env key availableAfterBurn
  let newBalance ← orFail (checkedSub balance liquidity) .underOverflow
  write fun m => m.putLiquidityBalance key msgSender newBalance
  let totalSupply ← query fun m => m.totalSupply key
  let newSupply ← orFail (checkedSub totalSupply liquidity) .underOverflow
  write fun m => m.putTotalSupply key newSupply
  let userAmount ← orFail (tryInto 128 amounts.1) (.tipFeeAMM .invalidAmount)
  let reserveUserToken ← orFail (checkedSub pool.reserveUserToken userAmount)
    (.tipFeeAMM .insufficientReserves)
  write fun m => m.putPool key ⟨reserveUserToken, availableAfterBurn⟩
  let _ ← onTip20 userToken (Tip20.transfer env userToken tipFeeManagerAddress to' amounts.1)
  let _ ← onTip20 validatorToken (Tip20.transfer env validatorToken
    tipFeeManagerAddress to' amounts.2)
  pure amounts

/-- The pools read while planning, with the validator reserve seen. -/
abbrev PoolData := List (PoolKey × Nat)

/-- The path a fee of `maxAmount` would take, the quote token looked up on the
way if any, and the pools read. -/
def planFeeRoute (userToken validatorToken : Address) (maxAmount : Nat) :
    Exec FeeWorld (Option FeeRoute × Option Address × PoolData) :=
  if userToken = validatorToken then pure (some .sameToken, none, [])
  else do
    let amountOut ← orFail (computeAmountOut maxAmount) .underOverflow
    let directKey : PoolKey := ⟨userToken, validatorToken⟩
    let direct ← query fun m => m.pools directKey
    let data := [(directKey, direct.reserveValidatorToken)]
    if amountOut ≤ direct.reserveValidatorToken then
      pure (some .direct, none, data)
    else if ¬.t5 ≤ env.spec then pure (none, none, data)
    else do
      let midToken ← onTokens do
        Tip20.fromAddress userToken
        Tip20.getQuoteToken userToken
      if midToken = 0 ∨ midToken = validatorToken then
        pure (none, some midToken, data)
      else do
        let leg1Key : PoolKey := ⟨userToken, midToken⟩
        let leg1 ← query fun m => m.pools leg1Key
        let data := data ++ [(leg1Key, leg1.reserveValidatorToken)]
        if ¬amountOut ≤ leg1.reserveValidatorToken then
          pure (none, some midToken, data)
        else do
          let amountOut2 ← orFail (computeAmountOut amountOut) .underOverflow
          let leg2Key : PoolKey := ⟨midToken, validatorToken⟩
          let leg2 ← query fun m => m.pools leg2Key
          let data := data ++ [(leg2Key, leg2.reserveValidatorToken)]
          if ¬amountOut2 ≤ leg2.reserveValidatorToken then
            pure (none, some midToken, data)
          else pure (some (.twoHop midToken), some midToken, data)

/-- A fee swap applied to a pool. -/
def applySwap (pool : Pool) (amountIn amountOut : Nat) : Exec FeeWorld Pool := do
  require (¬pool.reserveValidatorToken < amountOut) (.tipFeeAMM .insufficientLiquidity)
  let amountIn ← orFail (tryInto 128 amountIn) .underOverflow
  let amountOut ← orFail (tryInto 128 amountOut) .underOverflow
  let reserveUserToken ← orFail (checkedAdd 128 pool.reserveUserToken amountIn) .underOverflow
  let reserveValidatorToken ← orFail
    (checkedSub pool.reserveValidatorToken amountOut) .underOverflow
  pure ⟨reserveUserToken, reserveValidatorToken⟩

/-- Converts `amountIn` of user token at the fee rate. -/
def executeFeeSwap (userToken validatorToken : Address) (amountIn : Nat) : Exec FeeWorld Nat := do
  let amountOut ← orFail (computeAmountOut amountIn) .underOverflow
  let key : PoolKey := ⟨userToken, validatorToken⟩
  let pool ← query fun m => m.pools key
  let pool ← applySwap pool amountIn amountOut
  write fun m => m.putPool key pool
  pure amountOut

end TipFeeManager

end Tempo
