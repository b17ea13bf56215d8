/-
The fee manager: token preferences, collection of a fee before a transaction
with the AMM liquidity reserved for it, settlement afterwards, and payout of
the collected fees.
-/
import Tempo.FeeManager.Amm

namespace Tempo

namespace TipFeeManager

open FeeWorld Function

variable (env : Env)

def defaultFeeToken : Address := pathUsdAddress

def getValidatorToken (beneficiary : Address) : Exec FeeWorld Address := do
  let token ← query fun m => m.validatorTokens beneficiary
  pure (if token = 0 then defaultFeeToken else token)

/-- A validator cannot change their token within their own block. -/
def setValidatorToken (sender token beneficiary : Address) : Exec FeeWorld Unit := do
  let valid ← onTokens (Tip20Factory.isTip20 token)
  require (valid = true) (.feeManager .invalidToken)
  require (sender ≠ beneficiary) (.feeManager .cannotChangeWithinBlock)
  validateUsdCurrency token
  write fun m => { m with
    validatorTokens := update m.validatorTokens sender token }

def setUserToken (sender token : Address) : Exec FeeWorld Unit := do
  let valid ← onTokens (Tip20Factory.isTip20 token)
  require (valid = true) (.feeManager .invalidToken)
  validateUsdCurrency token
  let current ← query fun m => m.userTokens sender
  if .t3 ≤ env.spec ∧ current = token then pure ()
  else write fun m => { m with
    userTokens := update m.userTokens sender token }

/-- Reserves what the settlement of the chosen route may need. -/
def reserveFeeLiquidity (userToken validatorToken : Address)
    (maxAmount : Nat) : FeeRoute → Exec FeeWorld Unit
  | .sameToken => pure ()
  | .direct =>
    if .t1c ≤ env.spec then do
      let out ← orFail (computeAmountOut maxAmount) .underOverflow
      let amountOut ← orFail (tryInto 128 out) .underOverflow
      reservePoolLiquidity ⟨userToken, validatorToken⟩ amountOut
    else pure ()
  | .twoHop intermediate => do
    let out ← orFail (computeAmountOut maxAmount) .underOverflow
    let out1 ← orFail (tryInto 128 out) .underOverflow
    let out ← orFail (computeAmountOut out1) .underOverflow
    let out2 ← orFail (tryInto 128 out) .underOverflow
    reservePoolLiquidity ⟨userToken, intermediate⟩ out1
    reservePoolLiquidity ⟨intermediate, validatorToken⟩ out2
    write fun m => { m with twoHopIntermediate := intermediate }

def collectFeePreTx (feePayer userToken : Address) (maxAmount : Nat)
    (beneficiary : Address) (skipLiquidityCheck : Bool) : Exec FeeWorld Address := do
  let validatorToken ← getValidatorToken beneficiary
  onTip20 userToken do
    if .t8 ≤ env.spec then
      Tip20.ensureAuthorizedAs env userToken feePayer .sender
    else
      Tip20.ensureTransferAuthorized env userToken feePayer tipFeeManagerAddress
    Tip20.transferFeePreTx env userToken feePayer maxAmount
  if skipLiquidityCheck = false then do
    let plan ← planFeeRoute env userToken validatorToken maxAmount
    let route ← orFail plan.1 (.tipFeeAMM .insufficientLiquidity)
    reserveFeeLiquidity env userToken validatorToken maxAmount route
  else pure ()
  pure userToken

def incrementCollectedFees (validator token : Address) (amount : Nat) : Exec FeeWorld Unit :=
  if amount = 0 then pure ()
  else do
    let current ← query fun m => m.collectedFees validator token
    let value ← orFail (checkedAdd 256 current amount) .underOverflow
    write fun m => { m with
      collectedFees := update m.collectedFees validator
        (update (m.collectedFees validator) token value) }

/-- Swaps what was spent into the validator's token and returns what the
validator is credited. -/
def settleFee (feeToken validatorToken hopToken : Address)
    (actualSpending : Nat) : Exec FeeWorld Nat :=
  if feeToken = validatorToken then pure actualSpending
  else if hopToken = 0 then do
    if actualSpending ≠ 0 then do
      let _ ← executeFeeSwap feeToken validatorToken actualSpending
    else pure ()
    orFail (computeAmountOut actualSpending) .underOverflow
  else do
    if actualSpending ≠ 0 then do
      let out1 ← executeFeeSwap feeToken hopToken actualSpending
      let _ ← executeFeeSwap hopToken validatorToken out1
    else pure ()
    let out1 ← orFail (computeAmountOut actualSpending) .underOverflow
    orFail (computeAmountOut out1) .underOverflow

/-- Refunds what was not spent and settles the rest. -/
def collectFeePostTx (feePayer : Address) (actualSpending refundAmount : Nat)
    (feeToken beneficiary : Address) : Exec FeeWorld Nat := do
  onTip20 feeToken (Tip20.transferFeePostTx env feeToken feePayer refundAmount actualSpending)
  let hopToken ← query fun m => m.twoHopIntermediate
  let validatorToken ← getValidatorToken beneficiary
  let amount ← settleFee feeToken validatorToken hopToken actualSpending
  incrementCollectedFees beneficiary validatorToken amount
  pure amount

def distributeFees (validator token : Address) : Exec FeeWorld Unit := do
  let amount ← query fun m => m.collectedFees validator token
  if amount = 0 then pure ()
  else do
    write fun m => { m with
      collectedFees := update m.collectedFees validator
        (update (m.collectedFees validator) token 0) }
    let _ ← onTip20 token (Tip20.transfer env token tipFeeManagerAddress validator amount)
    pure ()

/-- Transient storage is cleared between transactions. -/
def beginTx : Exec FeeWorld Unit :=
  write fun m => { m with
    pendingFeeSwapReservation := fun _ => 0
    twoHopIntermediate := 0 }

end TipFeeManager

end Tempo
