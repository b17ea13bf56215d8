/-
The validator registry: an append-only list of records, reverse maps from
addresses and public keys, the set of ingress keys in use and the compact list
of active records with its back-pointers.  Parsing, hashing and signature
verification are functions of their inputs given by `ValidatorCodec`; the
registry it migrates from answers through `V1View`, which may differ at every
call.  Events are not modelled.
-/
import Tempo.Library.Arith
import Tempo.Library.SwapRemove
import Tempo.Primitives.Error

namespace Tempo

open Function

structure ValidatorRecord where
  publicKey : B256
  validatorAddress : Address
  ingress : String
  egress : String
  feeRecipient : Address
  index : Nat
  activeIdx : Nat
  addedAtHeight : Nat
  deactivatedAtHeight : Nat
  deriving DecidableEq

/-- What is read where no record is stored. -/
def ValidatorRecord.blank : ValidatorRecord :=
  ⟨0, 0, "", "", 0, 0, 0, 0, 0⟩

/-- Ownership, initialization state and migration bookkeeping. -/
structure ValidatorRegistryConfig where
  owner : Address
  isInit : Bool
  initAtHeight : Nat
  migrationSkippedCount : Nat
  v1ValidatorCount : Nat
  deriving DecidableEq

structure ValidatorConfigV2 where
  config : ValidatorRegistryConfig
  validators : List ValidatorRecord
  addressToIndex : Address → Nat
  pubkeyToIndex : B256 → Nat
  nextNetworkIdentityRotationEpoch : Nat
  activeIngressIps : B256 → Bool
  activeIndices : List Nat

/-- A record as the views return it, without the back-pointer. -/
structure Validator where
  publicKey : B256
  validatorAddress : Address
  ingress : String
  egress : String
  feeRecipient : Address
  index : Nat
  addedAtHeight : Nat
  deactivatedAtHeight : Nat
  deriving DecidableEq

def ValidatorRecord.view (v : ValidatorRecord) : Validator :=
  ⟨v.publicKey, v.validatorAddress, v.ingress, v.egress, v.feeRecipient,
    v.index, v.addedAtHeight, v.deactivatedAtHeight⟩

inductive SignatureKind where
  | add (feeRecipient : Address)
  | rotate

structure ValidatorCodec where
  ingressKey : String → Except TempoPrecompileError B256
  validateEndpoints : String → String → Except TempoPrecompileError Unit
  decodesPublicKey : B256 → Bool
  parseEgress : String → Option String
  verifySignature : SignatureKind → B256 → List UInt8 → Address → String →
    String → Except TempoPrecompileError Unit

structure V1Validator where
  publicKey : B256
  active : Bool
  validatorAddress : Address
  inboundAddress : String
  outboundAddress : String

structure V1View where
  owner : Address
  validatorCount : Nat
  validator : Nat → Except TempoPrecompileError V1Validator
  nextFullDkgCeremony : Nat

namespace ValidatorRegistryConfig

def requireInit (c : ValidatorRegistryConfig) : Exec ValidatorConfigV2 Unit :=
  require c.isInit (.validatorConfigV2 .notInitialized)

def requireNotInit (c : ValidatorRegistryConfig) : Exec ValidatorConfigV2 Unit :=
  require (c.isInit = false) (.validatorConfigV2 .alreadyInitialized)

def requireOwner (c : ValidatorRegistryConfig) (caller : Address) : Exec ValidatorConfigV2 Unit :=
  require (c.owner = caller) (.validatorConfigV2 .unauthorized)

def requireOwnerOrValidator (c : ValidatorRegistryConfig)
    (caller validator : Address) : Exec ValidatorConfigV2 Unit :=
  require (caller = validator ∨ c.owner = caller) (.validatorConfigV2 .unauthorized)

end ValidatorRegistryConfig

namespace ValidatorConfigV2

def empty : ValidatorConfigV2 where
  config := ⟨0, false, 0, 0, 0⟩
  validators := []
  addressToIndex _ := 0
  pubkeyToIndex _ := 0
  nextNetworkIdentityRotationEpoch := 0
  activeIngressIps _ := false
  activeIndices := []

def recordAt (s : ValidatorConfigV2) (i : Nat) : ValidatorRecord :=
  s.validators.getD i .blank

def putRecord (s : ValidatorConfigV2) (i : Nat) (v : ValidatorRecord) : ValidatorConfigV2 :=
  { s with validators := s.validators.set i v }

def pushRecord (s : ValidatorConfigV2) (v : ValidatorRecord) : ValidatorConfigV2 :=
  { s with validators := s.validators ++ [v] }

def putAddressIndex (s : ValidatorConfigV2) (a : Address) (n : Nat) : ValidatorConfigV2 :=
  { s with addressToIndex := update s.addressToIndex a n }

def putPubkeyIndex (s : ValidatorConfigV2) (key : B256) (n : Nat) : ValidatorConfigV2 :=
  { s with pubkeyToIndex := update s.pubkeyToIndex key n }

def putIngress (s : ValidatorConfigV2) (key : B256) (used : Bool) : ValidatorConfigV2 :=
  { s with activeIngressIps := update s.activeIngressIps key used }

/-! Views. -/

def readValidatorAt (index : Nat) : Exec ValidatorConfigV2 Validator :=
  reads fun s => (s.recordAt index).view

/-- Follows a one-based position of a reverse map or of the active list. -/
def readPosition (idx1 : Nat) : Exec ValidatorConfigV2 Validator := do
  let index ← orFail (checkedSub idx1 1) .underOverflow
  readValidatorAt index

/-- The records of the active list, in its order. -/
def getActiveValidators : Exec ValidatorConfigV2 (List Validator) := do
  let positions ← reads ValidatorConfigV2.activeIndices
  positions.mapM readPosition

/-! Checks. -/

def getActiveValidator (idx : Nat) : Exec ValidatorConfigV2 ValidatorRecord := do
  let validators ← reads ValidatorConfigV2.validators
  let v ← orFail validators[idx]? (.validatorConfigV2 .validatorNotFound)
  require (v.deactivatedAtHeight = 0) (.validatorConfigV2 .validatorAlreadyDeactivated)
  pure v

/-- Addresses of deactivated validators may be used again. -/
def requireNewAddress (addr : Address) : Exec ValidatorConfigV2 Unit := do
  require (addr ≠ 0) (.validatorConfigV2 .invalidValidatorAddress)
  let s ← reads id
  require (¬(s.addressToIndex addr ≠ 0 ∧
    (s.recordAt (s.addressToIndex addr - 1)).deactivatedAtHeight = 0))
    (.validatorConfigV2 .addressAlreadyHasValidator)

def requireNewPubkey (pubkey : B256) : Exec ValidatorConfigV2 Unit := do
  require (pubkey ≠ 0) (.validatorConfigV2 .invalidPublicKey)
  let s ← reads id
  require (s.pubkeyToIndex pubkey = 0) (.validatorConfigV2 .publicKeyAlreadyExists)

variable (codec : ValidatorCodec)

def requireUniqueIngress (ingress : String) : Exec ValidatorConfigV2 B256 := do
  let ingressHash ← ofExcept (codec.ingressKey ingress)
  let s ← reads id
  require (s.activeIngressIps ingressHash = false)
    (.validatorConfigV2 (.ingressAlreadyExists ingress))
  pure ingressHash

/-- Moves the mark from the old ingress key to the new one. -/
def updateIngressIpTracking (oldIngress newIngress : String) : Exec ValidatorConfigV2 Unit := do
  let oldHash ← ofExcept (codec.ingressKey oldIngress)
  let newHash ← ofExcept (codec.ingressKey newIngress)
  if oldHash ≠ newHash then do
    let s ← reads id
    require (s.activeIngressIps newHash = false)
      (.validatorConfigV2 (.ingressAlreadyExists newIngress))
    updates fun s => (s.putIngress oldHash false).putIngress newHash true
  else pure ()

/-! Operations. -/

/-- An active record also enters the active list. -/
def appendValidator (addr : Address) (pubkey : B256) (ingress egress : String)
    (feeRecipient : Address) (addedAtHeight deactivatedAtHeight : Nat) :
    Exec ValidatorConfigV2 Nat := do
  let count ← reads fun s => s.validators.length
  if deactivatedAtHeight = 0 then
    updates fun s => { s with activeIndices := s.activeIndices ++ [count + 1] }
  else pure ()
  let activeIdx ← reads fun s =>
    if deactivatedAtHeight = 0 then s.activeIndices.length else 0
  updates fun s =>
    ((s.pushRecord
      { publicKey := pubkey
        validatorAddress := addr
        ingress := ingress
        egress := egress
        feeRecipient := feeRecipient
        index := count
        activeIdx := activeIdx
        addedAtHeight := addedAtHeight
        deactivatedAtHeight := deactivatedAtHeight }).putPubkeyIndex pubkey
      (count + 1)).putAddressIndex addr (count + 1)
  pure count

/-- The contract is set up without a migration. -/
def initializeDirectly (owner : Address) (height : Nat) : Exec ValidatorConfigV2 Unit :=
  updates fun s => { s with config := ⟨owner, true, height, 0, 0⟩ }

def addValidator (height : Nat) (sender : Address) (validatorAddress : Address)
    (publicKey : B256) (ingress egress : String) (feeRecipient : Address)
    (signature : List UInt8) : Exec ValidatorConfigV2 Nat := do
  let config ← reads ValidatorConfigV2.config
  config.requireInit
  config.requireOwner sender
  requireNewPubkey publicKey
  requireNewAddress validatorAddress
  ofExcept (codec.validateEndpoints ingress egress)
  let ingressHash ← requireUniqueIngress codec ingress
  ofExcept (codec.verifySignature (.add feeRecipient) publicKey signature
    validatorAddress ingress egress)
  updates fun s => s.putIngress ingressHash true
  appendValidator validatorAddress publicKey ingress egress feeRecipient height 0

/-- The last entry of the active list takes the place at `activeIndex`. -/
def moveLastActive (activeIndex lastPos : Nat) : Exec ValidatorConfigV2 Unit :=
  updates fun s =>
    let movedVal := s.activeIndices.getD lastPos 0
    { s with
      activeIndices := s.activeIndices.set activeIndex movedVal
      validators := s.validators.set (movedVal - 1)
        { s.recordAt (movedVal - 1) with activeIdx := activeIndex + 1 } }

def deactivateValidator (height : Nat) (sender : Address) (idx : Nat) :
    Exec ValidatorConfigV2 Unit := do
  let v ← getActiveValidator idx
  let config ← reads ValidatorConfigV2.config
  config.requireOwnerOrValidator sender v.validatorAddress
  let ingressHash ← ofExcept (codec.ingressKey v.ingress)
  updates fun s => s.putIngress ingressHash false
  updates fun s => s.putRecord idx { s.recordAt idx with deactivatedAtHeight := height }
  let activeIndex ← orFail (checkedSub v.activeIdx 1) .underOverflow
  let count ← reads fun s => s.activeIndices.length
  let lastPos ← orFail (checkedSub count 1) .underOverflow
  if activeIndex ≠ lastPos then moveLastActive activeIndex lastPos else pure ()
  updates fun s => { s with activeIndices := s.activeIndices.dropLast }
  updates fun s => s.putRecord idx { s.recordAt idx with activeIdx := 0 }

def transferOwnership (sender newOwner : Address) : Exec ValidatorConfigV2 Unit := do
  require (newOwner ≠ 0) (.validatorConfigV2 .invalidOwner)
  let config ← reads ValidatorConfigV2.config
  config.requireInit
  config.requireOwner sender
  updates fun s => { s with config := { config with owner := newOwner } }

def setNetworkIdentityRotationEpoch (sender : Address) (epoch : Nat) :
    Exec ValidatorConfigV2 Unit := do
  let config ← reads ValidatorConfigV2.config
  config.requireInit
  config.requireOwner sender
  updates fun s => { s with nextNetworkIdentityRotationEpoch := epoch }

/-- Appends a deactivated snapshot of the old identity and overwrites the
record in place with the new one. -/
def rotateValidator (height : Nat) (sender : Address) (idx : Nat)
    (publicKey : B256) (ingress egress : String) (signature : List UInt8) :
    Exec ValidatorConfigV2 Unit := do
  let v ← getActiveValidator idx
  let config ← reads ValidatorConfigV2.config
  config.requireInit
  config.requireOwnerOrValidator sender v.validatorAddress
  requireNewPubkey publicKey
  ofExcept (codec.validateEndpoints ingress egress)
  let _ ← requireUniqueIngress codec ingress
  ofExcept (codec.verifySignature .rotate publicKey signature v.validatorAddress ingress egress)
  updateIngressIpTracking codec v.ingress ingress
  let appendedIdx ← reads fun s => s.validators.length
  updates fun s => s.pushRecord
    { v with
      index := appendedIdx
      activeIdx := 0
      deactivatedAtHeight := height }
  updates fun s => s.putPubkeyIndex v.publicKey (appendedIdx + 1)
  updates fun s => s.putRecord idx
    { s.recordAt idx with
      publicKey := publicKey
      ingress := ingress
      egress := egress
      addedAtHeight := height }
  updates fun s => s.putPubkeyIndex publicKey (idx + 1)

/-- What every change of an active record by its owner or validator starts
with. -/
def getOwnValidator (sender : Address) (idx : Nat) : Exec ValidatorConfigV2 ValidatorRecord := do
  let v ← getActiveValidator idx
  let config ← reads ValidatorConfigV2.config
  config.requireInit
  config.requireOwnerOrValidator sender v.validatorAddress
  pure v

def setFeeRecipient (sender : Address) (idx : Nat) (feeRecipient : Address) :
    Exec ValidatorConfigV2 Unit := do
  let v ← getOwnValidator sender idx
  updates fun s => s.putRecord idx { v with feeRecipient }

def setIpAddresses (sender : Address) (idx : Nat) (ingress egress : String) :
    Exec ValidatorConfigV2 Unit := do
  let v ← getOwnValidator sender idx
  ofExcept (codec.validateEndpoints ingress egress)
  updateIngressIpTracking codec v.ingress ingress
  updates fun s => s.putRecord idx { v with ingress, egress }

def transferValidatorOwnership (sender : Address) (idx : Nat)
    (newAddress : Address) : Exec ValidatorConfigV2 Unit := do
  let v ← getOwnValidator sender idx
  requireNewAddress newAddress
  updates fun s => s.putRecord idx { v with validatorAddress := newAddress }
  updates fun s => s.putAddressIndex v.validatorAddress 0
  updates fun s => s.putAddressIndex newAddress (idx + 1)

/-! Migration. -/

/-- On the first call the owner and the number of validators are copied; the
number is kept in eight bits.  The stored count of skipped validators is reset
then, the returned one is not. -/
def requireMigrationOwner (v1 : V1View) (caller : Address) :
    Exec ValidatorConfigV2 ValidatorRegistryConfig := do
  let config ← reads ValidatorConfigV2.config
  config.requireNotInit
  if config.owner = 0 then do
    require (v1.validatorCount ≠ 0) (.validatorConfigV2 .emptyV1ValidatorSet)
    let config := { config with
      owner := v1.owner
      v1ValidatorCount := v1.validatorCount % 256 }
    updates fun s => { s with
      config := ⟨config.owner, false, 0, 0, config.v1ValidatorCount⟩ }
    config.requireOwner caller
    pure config
  else do
    config.requireOwner caller
    pure config

def skipMigration (skipped : Nat) : Exec ValidatorConfigV2 Unit :=
  updates fun s => { s with
    config.migrationSkippedCount := saturatingAdd 8 skipped 1 }

/-- The part of a migration after the public key and egress were found
readable and the key new. -/
def migrateReadable (height : Nat) (skipped : Nat) (val : V1Validator)
    (egress : String) : Exec ValidatorConfigV2 Unit := do
  let s ← reads id
  require (¬(s.addressToIndex val.validatorAddress ≠ 0 ∧
    (s.recordAt (s.addressToIndex val.validatorAddress - 1) ).deactivatedAtHeight = 0))
    (.validatorConfigV2 .addressAlreadyHasValidator)
  let ingressHash ← ofExcept (codec.ingressKey val.inboundAddress)
  if val.active = true ∧ s.activeIngressIps ingressHash = true then
    skipMigration skipped
  else do
    let _ ← appendValidator val.validatorAddress val.publicKey
      val.inboundAddress egress 0 height (if val.active then 0 else height)
    if val.active then updates fun s => s.putIngress ingressHash true
    else pure ()

def migrateValidator (height : Nat) (v1 : V1View) (sender : Address)
    (idx : Nat) : Exec ValidatorConfigV2 Unit := do
  let config ← requireMigrationOwner v1 sender
  let s ← reads id
  let skipped := config.migrationSkippedCount
  let totalProcessed := s.validators.length + skipped
  require (¬(config.v1ValidatorCount ≤ totalProcessed ∨
    idx ≠ config.v1ValidatorCount - totalProcessed - 1)) (.validatorConfigV2 .invalidMigrationIndex)
  let val ← ofExcept (v1.validator idx)
  if codec.decodesPublicKey val.publicKey = false then skipMigration skipped
  else
    match codec.parseEgress val.outboundAddress with
    | none => skipMigration skipped
    | some egress =>
      if s.pubkeyToIndex val.publicKey ≠ 0 then skipMigration skipped
      else migrateReadable codec height skipped val egress

def initializeIfMigrated (height : Nat) (v1 : V1View) (sender : Address) :
    Exec ValidatorConfigV2 Unit := do
  let config ← requireMigrationOwner v1 sender
  let migrated ← reads fun s => s.validators.length
  require (¬(config.v1ValidatorCount = 0 ∨
    migrated + config.migrationSkippedCount < config.v1ValidatorCount))
    (.validatorConfigV2 .migrationNotComplete)
  updates fun s => { s with
    nextNetworkIdentityRotationEpoch := v1.nextFullDkgCeremony
    config := { config with isInit := true, initAtHeight := height } }

end ValidatorConfigV2

end Tempo
