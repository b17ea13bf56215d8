/-
Accounts owned by several weighted owners.  The configuration is carried by
each signature and limits how many owners may approve, so it is only accepted
if the threshold can be reached within that limit.  An approval list is
verified in one pass and must end with the approval that reaches the threshold.
-/
import Tempo.Library.Arith
import Tempo.Library.BinarySearch
import Tempo.Library.Selection
import Tempo.Transaction.Signature

namespace Tempo

def maxConfigurableAccountOwners : Nat := 48

def maxConfigurableAccountSignatures : Nat := 8

def maxConfigurableAccountOwnerSignatureBytes : Nat :=
  1 + maxWebauthnSignatureLength

/-- The characters of `tempo:configurable-account:signature`. -/
def configurableAccountSignatureDomain : Bytes :=
  "tempo:configurable-account:signature".toUTF8.toList

structure ConfigurableAccountOwner where
  owner : Address
  weight : UInt8
  deriving DecidableEq

structure ConfigurableAccountConfig where
  salt : B256
  version : UInt64
  threshold : UInt8
  owners : List ConfigurableAccountOwner
  deriving DecidableEq

inductive ConfigurableAccountConfigError where
  | emptyOwners
  | tooManyOwners
  | zeroThreshold
  | zeroOwner
  | zeroWeight
  | duplicateOwner
  | ownersNotAscending
  | totalWeightExceedsMax
  | thresholdExceedsWeight
  | accountIsOwner
  deriving DecidableEq

namespace ConfigurableAccountConfig

/-- Found by binary search, as the owners are sorted. -/
def ownerWeight (config : ConfigurableAccountConfig) (owner : Address) : Option UInt8 :=
  (binarySearchBy config.owners fun entry =>
    compare entry.owner.word.toNat owner.word.toNat).bind fun idx =>
      config.owners[idx]?.map fun entry => entry.weight

/-- The first owner that is zero or, initially, the account itself. -/
def checkOwners (version : UInt64) (account : Option Address) :
    List ConfigurableAccountOwner → Except ConfigurableAccountConfigError Unit
  | [] => .ok ()
  | entry :: rest =>
    if entry.owner.isZero then .error .zeroOwner
    else if version = 0 ∧ account = some entry.owner then
      .error .accountIsOwner
    else checkOwners version account rest

/-- Whether each owner is below the next. -/
def ascending : List ConfigurableAccountOwner → Bool
  | first :: second :: rest =>
    !decide (second.owner.word ≤ first.owner.word) && ascending (second :: rest)
  | _ => true

/-- Whether some owner occurs before. -/
def hasDuplicate (owners : List ConfigurableAccountOwner) : Bool :=
  (List.range owners.length).any fun index =>
    (owners.take index).any fun previous =>
      owners[index]?.map (fun entry => entry.owner) == some previous.owner

def totalWeight (owners : List ConfigurableAccountOwner) : Option Nat :=
  owners.foldlM (fun total entry => checkedAdd 8 total entry.weight.toNat) 0

/-- The largest weights that fit into one approval list. -/
def largestWeights (owners : List ConfigurableAccountOwner) : List Nat :=
  (owners.map fun entry => entry.weight.toNat).foldl offer
    (List.replicate maxConfigurableAccountSignatures 0)

def validateInner (config : ConfigurableAccountConfig)
    (account : Option Address) : Except ConfigurableAccountConfigError Nat :=
  if config.owners = [] then .error .emptyOwners
  else if maxConfigurableAccountOwners < config.owners.length then
    .error .tooManyOwners
  else if config.threshold = 0 then .error .zeroThreshold
  else do
    checkOwners config.version account config.owners
    if config.owners.any fun entry => entry.weight == 0 then
      .error .zeroWeight
    else if ascending config.owners = false then
      if hasDuplicate config.owners then .error .duplicateOwner
      else .error .ownersNotAscending
    else
      match totalWeight config.owners with
      | none => .error .totalWeightExceedsMax
      | some total =>
        if (largestWeights config.owners).sum < config.threshold.toNat then
          .error .thresholdExceedsWeight
        else .ok total

def validate (config : ConfigurableAccountConfig) : Except ConfigurableAccountConfigError Nat :=
  config.validateInner none

/-- Rejects initial self-ownership as well. -/
def validateForAccount (config : ConfigurableAccountConfig)
    (account : Address) : Except ConfigurableAccountConfigError Nat :=
  config.validateInner (some account)

end ConfigurableAccountConfig

inductive ConfigurableAccountSignatureError where
  | invalidConfig (error : ConfigurableAccountConfigError)
  | zeroAccount
  | emptySignatures
  | tooManySignatures
  | ownerSignatureTooLarge
  deriving DecidableEq

/-- The checks of the shape of a signature. -/
def ConfigurableAccountConfig.validateShape (config : ConfigurableAccountConfig) (account : Address)
    (signatures : List PrimitiveSignature) : Except ConfigurableAccountSignatureError Unit :=
  if account.isZero then .error .zeroAccount
  else
    match config.validateForAccount account with
    | .error e => .error (.invalidConfig e)
    | .ok _ =>
      if signatures = [] then .error .emptySignatures
      else if maxConfigurableAccountSignatures < signatures.length then
        .error .tooManySignatures
      else if signatures.any fun signature =>
          decide (maxConfigurableAccountOwnerSignatureBytes < signature.encodedLength) then
        .error .ownerSignatureTooLarge
      else .ok ()

/-- A signature is only built or decoded if its shape is valid. -/
structure ConfigurableAccountSignature where
  account : Address
  config : ConfigurableAccountConfig
  signatures : List PrimitiveSignature
  shape : config.validateShape account signatures = .ok ()

inductive ConfigurableAccountQuorumError where
  | zeroThreshold
  | emptySignatures
  | tooManySignatures
  | excessSignatures
  | signerNotOwner
  | signersNotAscending
  | weightBelowThreshold
  | ownerSignatureRecoveryFailed (approvalIndex : Nat)
  deriving DecidableEq

/-- The recovered weight so far. -/
structure ConfigurableAccountWeightAccumulator where
  threshold : Nat
  prevOwner : Option Address
  recoveredWeight : Nat
  signerCount : Nat
  deriving DecidableEq

namespace ConfigurableAccountWeightAccumulator

def new (threshold : UInt8) : Except ConfigurableAccountQuorumError
    ConfigurableAccountWeightAccumulator :=
  if threshold = 0 then .error .zeroThreshold
  else .ok ⟨threshold.toNat, none, 0, 0⟩

def hasQuorum (acc : ConfigurableAccountWeightAccumulator) : Bool :=
  decide (0 < acc.signerCount ∧ acc.threshold ≤ acc.recoveredWeight)

/-- Signers come in ascending order, within the limit, and stop at the
quorum. -/
def recordOwner (acc : ConfigurableAccountWeightAccumulator) (owner : Address) (weight : UInt8) :
    Except ConfigurableAccountQuorumError
      ConfigurableAccountWeightAccumulator :=
  if acc.hasQuorum then .error .excessSignatures
  else if weight = 0 then .error .signerNotOwner
  else if maxConfigurableAccountSignatures < acc.signerCount + 1 then
    .error .tooManySignatures
  else if acc.prevOwner.any fun prev => decide (owner.word ≤ prev.word) then
    .error .signersNotAscending
  else .ok
    { acc with
      prevOwner := some owner
      recoveredWeight := acc.recoveredWeight + weight.toNat
      signerCount := acc.signerCount + 1 }

def finish (acc : ConfigurableAccountWeightAccumulator) :
    Except ConfigurableAccountQuorumError Unit :=
  if acc.signerCount = 0 then .error .emptySignatures
  else if acc.recoveredWeight < acc.threshold then .error .weightBelowThreshold
  else .ok ()

end ConfigurableAccountWeightAccumulator

/-- Hashing and the recovery of signers. -/
structure Crypto where
  keccak256 : Bytes → B256
  recoverSigner : PrimitiveSignature → B256 → Option Address

/-- What the owners of an account sign. -/
def configurableAccountPayload (innerDigest : B256) (account : Address)
    (configVersion : UInt64) : Bytes :=
  configurableAccountSignatureDomain ++ B256.toBytes innerDigest ++
    account.toBytes ++ beBytes 8 configVersion.toNat

def configurableAccountDigest (crypto : Crypto) (innerDigest : B256)
    (account : Address) (configVersion : UInt64) : B256 :=
  crypto.keccak256 (configurableAccountPayload innerDigest account configVersion)

namespace ConfigurableAccountSignature

def digest (crypto : Crypto) (signature : ConfigurableAccountSignature)
    (innerDigest : B256) : B256 :=
  configurableAccountDigest crypto innerDigest signature.account signature.config.version

/-- The loop over the approvals from an index on. -/
def recordApprovals (crypto : Crypto) (config : ConfigurableAccountConfig)
    (digest : B256) (count : Nat) : Nat → List PrimitiveSignature →
      ConfigurableAccountWeightAccumulator → Except ConfigurableAccountQuorumError
        ConfigurableAccountWeightAccumulator
  | _, [], weight => .ok weight
  | approvalIndex, approval :: rest, weight =>
    match crypto.recoverSigner approval digest with
    | none => .error (.ownerSignatureRecoveryFailed approvalIndex)
    | some owner =>
      match config.ownerWeight owner with
      | none => .error .signerNotOwner
      | some ownerWeight => do
        let weight ← weight.recordOwner owner ownerWeight
        if weight.hasQuorum ∧ approvalIndex + 1 ≠ count then
          .error .excessSignatures
        else
          recordApprovals crypto config digest count (approvalIndex + 1) rest weight

def verifyApprovals (crypto : Crypto)
    (signature : ConfigurableAccountSignature) (innerDigest : B256) :
    Except ConfigurableAccountQuorumError Unit := do
  let weight ← ConfigurableAccountWeightAccumulator.new signature.config.threshold
  let weight ← recordApprovals crypto signature.config
    (signature.digest crypto innerDigest) signature.signatures.length 0
    signature.signatures weight
  weight.finish

end ConfigurableAccountSignature

end Tempo
