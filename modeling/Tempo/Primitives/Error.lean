/-
Error values of the precompiles.  Each contract has its own error type and
`TempoPrecompileError` is their union, as callers match on it to decide which
failures may be swallowed.
-/
import Tempo.Library.Exec
import Tempo.Primitives.Address

namespace Tempo

inductive StablecoinDEXError where
  | unauthorized
  | pairDoesNotExist
  | pairAlreadyExists
  | orderDoesNotExist
  | identicalTokens
  | invalidToken
  | tickOutOfBounds (tick : Int)
  | invalidTick
  | invalidFlipTick
  | insufficientBalance
  | insufficientLiquidity
  | insufficientOutput
  | maxInputExceeded
  | belowMinimumOrderSize (amount : Nat)
  | invalidBaseToken
  | orderNotStale
  | indexAlreadySet
  deriving DecidableEq, Repr

inductive TIP20Error where
  | insufficientBalance (available required : Nat) (token : Address)
  | insufficientAllowance
  | supplyCapExceeded
  | invalidSupplyCap
  | invalidPayload
  | policyForbids
  | invalidRecipient
  | contractPaused
  | invalidCurrency
  | invalidQuoteToken
  | invalidAmount
  | noOptedInSupply
  | unauthorized
  | protectedAddress
  | invalidToken
  | uninitialized
  | invalidTransferPolicyId
  | permitExpired
  | invalidSignature
  | logoURITooLong
  | invalidLogoURI
  | rootKeyRetired (account : Address)
  deriving DecidableEq, Repr

inductive TIP20FactoryError where
  | addressReserved
  | addressNotReserved
  | invalidQuoteToken
  | tokenAlreadyExists (token : Address)
  deriving DecidableEq, Repr

inductive RolesAuthError where
  | unauthorized
  deriving DecidableEq, Repr

inductive AddrRegistryError where
  | masterIdCollision (master : Address)
  | invalidMasterAddress
  | proofOfWorkFailed
  | virtualAddressUnregistered
  deriving DecidableEq, Repr

inductive TIP403RegistryError where
  | unauthorized
  | policyNotFound
  | policyNotSimple
  | invalidPolicyType
  | incompatiblePolicyType
  | virtualAddressNotAllowed
  | invalidReceivePolicyType
  | invalidRecoveryAuthority
  deriving DecidableEq, Repr

inductive FeeManagerError where
  | invalidToken
  | insufficientFeeTokenBalance
  | cannotChangeWithinBlock
  deriving DecidableEq, Repr

inductive TIPFeeAMMError where
  | identicalAddresses
  | invalidToken
  | insufficientLiquidity
  | insufficientReserves
  | invalidAmount
  | divisionByZero
  | invalidSwapCalculation
  deriving DecidableEq, Repr

inductive NonceError where
  | protocolNonceNotSupported
  | invalidNonceKey
  | nonceOverflow
  | expiringNonceReplay
  | expiringNonceSetFull
  | invalidExpiringNonceExpiry
  deriving DecidableEq, Repr

inductive AccountKeychainError where
  | unauthorizedCaller
  | keyNotFound
  | keyExpired
  | spendingLimitExceeded
  | keyAlreadyRevoked
  | zeroPublicKey
  | expiryInPast
  | keyAlreadyExists
  | invalidKeyId
  | invalidSignatureType
  | signatureTypeMismatch (expected actual : Nat)
  | invalidSpendingLimit
  | invalidCallScope
  | callNotAllowed
  | keyAuthorizationWitnessAlreadyBurned
  deriving DecidableEq, Repr

inductive ReceivePolicyGuardError where
  | invalidReceipt
  | invalidClaimAddress
  | unauthorizedClaimer
  | addressReserved
  deriving DecidableEq, Repr

inductive ValidatorConfigV2Error where
  | alreadyInitialized
  | ingressAlreadyExists (ingress : String)
  | emptyV1ValidatorSet
  | invalidMigrationIndex
  | invalidOwner
  | invalidPublicKey
  | invalidSignature
  | invalidSignatureFormat
  | invalidValidatorAddress
  | migrationNotComplete
  | notInitialized
  | notIp (input backtrace : String)
  | notIpPort (input backtrace : String)
  | publicKeyAlreadyExists
  | unauthorized
  | addressAlreadyHasValidator
  | validatorAlreadyDeactivated
  | validatorNotFound
  deriving DecidableEq, Repr

inductive TIP20ChannelReserveError where
  | channelAlreadyExists
  | channelNotFound
  | notPayer
  | notPayeeOrOperator
  | invalidPayee
  | zeroDeposit
  | expiringNonceHashNotSet
  | invalidSignature
  | amountExceedsDeposit
  | amountNotIncreasing
  | captureAmountInvalid
  | closeNotReady
  | depositOverflow
  | rootKeyRetired (account : Address)
  deriving DecidableEq, Repr

inductive PanicKind where
  | underOverflow
  | enumConversionError
  | arrayOutOfBounds
  deriving DecidableEq, Repr

/-- Top-level error of all precompile operations.  Two are not errors of the
source: `aborted` marks a failed `expect`, which ends the process, and
`outOfFuel` a loop of the model that was given too few iterations. -/
inductive TempoPrecompileError where
  | stablecoinDEX (e : StablecoinDEXError)
  | tip20 (e : TIP20Error)
  | tip20Factory (e : TIP20FactoryError)
  | rolesAuth (e : RolesAuthError)
  | addrRegistry (e : AddrRegistryError)
  | tip403Registry (e : TIP403RegistryError)
  | feeManager (e : FeeManagerError)
  | tipFeeAMM (e : TIPFeeAMMError)
  | nonce (e : NonceError)
  | panic (kind : PanicKind)
  | storageDeltaUnderflow (current : Nat)
  | accountKeychain (e : AccountKeychainError)
  | receivePolicyGuard (e : ReceivePolicyGuardError)
  | validatorConfigV2 (e : ValidatorConfigV2Error)
  | tip20ChannelReserve (e : TIP20ChannelReserveError)
  | outOfGas
  | staticCallNotAllowed
  | fatal (msg : String)
  | aborted (msg : String)
  | outOfFuel
  deriving DecidableEq, Repr

namespace TempoPrecompileError

def underOverflow : TempoPrecompileError :=
  panic .underOverflow

/-- A failure that must be propagated because state may be inconsistent. -/
def isSystemError : TempoPrecompileError → Bool
  | outOfGas | staticCallNotAllowed | fatal _ | panic _
  | storageDeltaUnderflow _ => true
  | aborted _ | outOfFuel => true
  | _ => false

end TempoPrecompileError

/-- Computations of the precompiles over a state `σ`. -/
abbrev Exec (σ α : Type) := EStateM TempoPrecompileError σ α

end Tempo
