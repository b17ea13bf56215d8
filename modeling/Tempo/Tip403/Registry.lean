/-
The TIP-403 registry: simple and compound transfer policies, and the receive
policy of an account with the policy types it caches.  Read-only functions are
functions of the registry; events and the token-to-policy bindings, which no
function here reads, are not modelled.
-/
import Tempo.Tip20.Operations

namespace Tempo

open Function

/-- Policy types as callers pass them; `invalid` is what an unknown
discriminant decodes to. -/
inductive PolicyType where
  | whitelist
  | blacklist
  | compound
  | invalid
  deriving DecidableEq, Repr

namespace PolicyType

/-- The stored discriminant. -/
def toU8 : PolicyType → Nat
  | whitelist => 0
  | blacklist => 1
  | compound => 2
  | invalid => 255

def tryFrom (raw : Nat) : Option PolicyType :=
  match raw with
  | 0 => some whitelist
  | 1 => some blacklist
  | 2 => some compound
  | _ => none

/-- The type to store for a simple policy.  Before T2 other types are stored
as invalid. -/
def ensureIsSimple (spec : TempoHardfork) (ty : PolicyType) : Except TempoPrecompileError Nat :=
  match ty with
  | whitelist | blacklist => .ok ty.toU8
  | compound | invalid =>
    if .t2 ≤ spec then .error (.tip403Registry .incompatiblePolicyType)
    else .ok invalid.toU8

end PolicyType

structure PolicyData where
  policyType : Nat
  admin : Address
  deriving DecidableEq

structure CompoundPolicyData where
  senderPolicyId : Nat
  recipientPolicyId : Nat
  mintRecipientPolicyId : Nat
  deriving DecidableEq

structure PolicyRecord where
  base : PolicyData
  compound : CompoundPolicyData
  deriving DecidableEq

/-- A receive policy with the types of its policies as they were when it was
set. -/
structure ReceivePolicyConfig where
  hasReceivePolicy : Bool
  senderPolicyId : Nat
  senderPolicyType : Nat
  tokenFilterId : Nat
  tokenFilterType : Nat
  recoveryMode : RecoveryMode
  deriving DecidableEq

structure ReceivePolicy where
  config : ReceivePolicyConfig
  recoveryAddress : Address
  deriving DecidableEq

structure Tip403Registry where
  policyIdCounter : Nat
  policyRecords : Nat → PolicyRecord
  policySet : Nat → Address → Bool
  receivePolicies : Address → ReceivePolicy

def rejectAllPolicyId : Nat := 0

/-- System addresses that cannot be policed, by activation. -/
def alwaysAuthorized : List (TempoHardfork × List Address) :=
  [(.t6, [receivePolicyGuardAddress])]

def systemPrecompiles : List (Address × TempoHardfork) :=
  [(tip403RegistryAddress, .genesis), (tipFeeManagerAddress, .genesis),
   (stablecoinDexAddress, .genesis), (⟨0x4E4F4E4345000000000000000000000000000000#160⟩, .genesis),
   (⟨0xAAAAAAAA00000000000000000000000000000000#160⟩, .genesis),
   (⟨0xCCCCCCCC00000000000000000000000000000000#160⟩, .genesis),
   (⟨0xCCCCCCCC00000000000000000000000000000001#160⟩, .genesis), (tip20FactoryAddress, .genesis),
   (⟨0xFDC0000000000000000000000000000000000000#160⟩, .t3),
   (⟨0x5165300000000000000000000000000000000000#160⟩, .t3), (tip20ChannelReserveAddress, .t5),
   (receivePolicyGuardAddress, .t6), (⟨0x1060000000000000000000000000000000000000#160⟩, .t7),
   (⟨0xC077E00000000000000000000000000000000000#160⟩, .t8),
   (⟨0x5AF2000000000000000000000000000000000000#160⟩, .t10),
   (⟨0x5A56000000000000000000000000000000000000#160⟩, .t13)]

/-- A TIP-20 token or a system precompile active under the fork. -/
def Address.isPrecompile (a : Address) (spec : TempoHardfork) : Bool :=
  a.isTip20 || systemPrecompiles.any fun entry =>
    entry.1 == a && decide (entry.2 ≤ spec)

/-- The mode a configured recovery authority is stored as, with the address
kept for it. -/
def RecoveryMode.encode (authority msgSender : Address) : RecoveryMode × Address :=
  if authority = 0 then (.originator, 0)
  else if authority = msgSender then (.receiver, 0)
  else (.thirdParty, authority)

namespace PolicyData

def blank : PolicyData := ⟨0, 0⟩

/-- Decodes the stored type; compound policies exist from T2 on. -/
def decodeType (d : PolicyData) (spec : TempoHardfork) : Except TempoPrecompileError PolicyType :=
  let refused : TempoPrecompileError :=
    if .t2 ≤ spec then .tip403Registry .invalidPolicyType
    else .underOverflow
  match PolicyType.tryFrom d.policyType with
  | some ty =>
    if .t2 ≤ spec ∨ ty ≠ .compound then .ok ty else .error refused
  | none => .error refused

def isSimple (d : PolicyData) : Bool :=
  d.policyType == PolicyType.whitelist.toU8 || d.policyType == PolicyType.blacklist.toU8

theorem isSimple_iff {d : PolicyData} : d.isSimple = true ↔ d.policyType ≤ 1 := by
  simp only [isSimple, PolicyType.toU8, Bool.or_eq_true, beq_iff_eq]
  omega

def isCompound (d : PolicyData) : Bool :=
  d.policyType == PolicyType.compound.toU8

def isDefault (d : PolicyData) : Bool :=
  d.policyType == 0 && d.admin.isZero

end PolicyData

namespace ReceivePolicyConfig

def senderPolicyData (c : ReceivePolicyConfig) : PolicyData :=
  ⟨c.senderPolicyType, 0⟩

def tokenFilterData (c : ReceivePolicyConfig) : PolicyData :=
  ⟨c.tokenFilterType, 0⟩

end ReceivePolicyConfig

namespace Tip403Registry

def empty : Tip403Registry where
  policyIdCounter := 0
  policyRecords _ := ⟨.blank, ⟨0, 0, 0⟩⟩
  policySet _ _ := false
  receivePolicies _ := ⟨⟨false, 0, 0, 0, 0, .originator⟩, 0⟩

/-- The next policy id; ids 0 and 1 are built in. -/
def nextPolicyId (r : Tip403Registry) : Nat :=
  max r.policyIdCounter 2

def builtinAuthorization (policyId : Nat) : Option Bool :=
  if policyId = allowAllPolicyId then some true
  else if policyId = rejectAllPolicyId then some false
  else none

def policyExists (r : Tip403Registry) (policyId : Nat) : Bool :=
  (builtinAuthorization policyId).isSome || decide (policyId < r.nextPolicyId)

/-! Reading. -/

section Reading

variable (spec : TempoHardfork) (r : Tip403Registry)

/-- From T2 on a policy that was never created is not found; the counter is
only consulted for default data. -/
def getPolicyData (policyId : Nat) : Except TempoPrecompileError PolicyData :=
  let data := (r.policyRecords policyId).base
  if .t2 ≤ spec ∧ data.isDefault ∧ r.nextPolicyId ≤ policyId then
    .error (.tip403Registry .policyNotFound)
  else .ok data

def isAuthorizedSimpleInner (policyId : Nat) (user : Address)
    (data : PolicyData) : Except TempoPrecompileError Bool := do
  let isInSet := r.policySet policyId user
  match ← data.decodeType spec with
  | .whitelist => .ok isInSet
  | .blacklist => .ok !isInSet
  | .compound => .error (.tip403Registry .incompatiblePolicyType)
  | .invalid => .error (.panic .enumConversionError)

/-- Authorization by a simple policy, whose data may come from a cache. -/
def isAuthorizedSimple (policyId : Nat) (user : Address)
    (cache : Option PolicyData) : Except TempoPrecompileError Bool :=
  match builtinAuthorization policyId with
  | some auth => .ok auth
  | none => do
    let data ← match cache with
      | some data => .ok data
      | none => getPolicyData spec r policyId
    isAuthorizedSimpleInner spec r policyId user data

/-- The role's sub-policy; the symmetric role needs both directions. -/
def isAuthorizedCompound (compound : CompoundPolicyData) (user : Address) :
    AuthRole → Except TempoPrecompileError Bool
  | .sender => isAuthorizedSimple spec r compound.senderPolicyId user none
  | .recipient =>
    isAuthorizedSimple spec r compound.recipientPolicyId user none
  | .mintRecipient =>
    isAuthorizedSimple spec r compound.mintRecipientPolicyId user none
  | .transfer => do
    let senderAuth ← isAuthorizedSimple spec r compound.senderPolicyId user none
    if .t2 ≤ spec ∧ senderAuth = false then .ok false
    else
      let recipientAuth ← isAuthorizedSimple spec r compound.recipientPolicyId user none
      .ok (senderAuth && recipientAuth)

def isAlwaysAuthorized (user : Address) : Bool :=
  alwaysAuthorized.any fun entry =>
    decide (entry.1 ≤ spec) && entry.2.contains user

def isAuthorizedAs (policyId : Nat) (user : Address) (role : AuthRole) :
    Except TempoPrecompileError Bool :=
  if isAlwaysAuthorized spec user then .ok true
  else
    match builtinAuthorization policyId with
    | some auth => .ok auth
    | none => do
      let data ← getPolicyData spec r policyId
      if data.isCompound then
        isAuthorizedCompound spec r (r.policyRecords policyId).compound user role
      else isAuthorizedSimpleInner spec r policyId user data

def receivePolicyRecovery (account : Address) (mode : RecoveryMode) : Address :=
  match mode with
  | .originator => 0
  | .receiver => account
  | .thirdParty => (r.receivePolicies account).recoveryAddress

/-- The reason an inbound transfer is blocked, with the recovery authority;
the types of both policies come from the receiver's configuration. -/
def checkReceivePolicy (token sender receiver : Address) :
    Except TempoPrecompileError (Option (BlockedReason × Address)) := do
  let config := (r.receivePolicies receiver).config
  if config.hasReceivePolicy = false then .ok none
  else
    let tokenAuth ← isAuthorizedSimple spec r config.tokenFilterId token
      (some config.tokenFilterData)
    if tokenAuth = false then
      .ok (some (.tokenFilter, receivePolicyRecovery r receiver config.recoveryMode))
    else
      let senderAuth ← isAuthorizedSimple spec r config.senderPolicyId sender
        (some config.senderPolicyData)
      if senderAuth = false then
        .ok (some (.receivePolicy, receivePolicyRecovery r receiver config.recoveryMode))
      else .ok none

def validateSimplePolicy (policyId : Nat) : Except TempoPrecompileError Unit :=
  if (builtinAuthorization policyId).isSome then .ok ()
  else if r.nextPolicyId ≤ policyId then
    .error (.tip403Registry .policyNotFound)
  else do
    let data ← getPolicyData spec r policyId
    if data.isSimple = false then .error (.tip403Registry .policyNotSimple)
    else .ok ()

/-- The type to cache for a policy of a receive policy. -/
def validateReceivePolicyId (policyId : Nat) : Except TempoPrecompileError Nat :=
  if (builtinAuthorization policyId).isSome then .ok policyId
  else if r.nextPolicyId ≤ policyId then
    .error (.tip403Registry .policyNotFound)
  else do
    let data ← getPolicyData spec r policyId
    if data.isSimple = false then
      .error (.tip403Registry .invalidReceivePolicyType)
    else .ok data.policyType

end Reading

/-! Writing. -/

def putBase (r : Tip403Registry) (policyId : Nat) (data : PolicyData) : Tip403Registry :=
  { r with
    policyRecords := update r.policyRecords policyId
      { r.policyRecords policyId with base := data } }

theorem putBase_self (r : Tip403Registry) (policyId : Nat) (data : PolicyData) :
    (r.putBase policyId data).policyRecords policyId =
      ⟨data, (r.policyRecords policyId).compound⟩ := update_self _ _ _

theorem putBase_of_ne (r : Tip403Registry) {policyId i : Nat}
    (data : PolicyData) (hi : i ≠ policyId) :
    (r.putBase policyId data).policyRecords i = r.policyRecords i := update_of_ne hi _ _

def putMember (r : Tip403Registry) (policyId : Nat) (account : Address)
    (value : Bool) : Tip403Registry :=
  { r with
    policySet := update r.policySet policyId (update (r.policySet policyId) account value) }

variable (spec : TempoHardfork)

/-- Takes the next policy id. -/
def allocatePolicyId : Exec Tip403Registry Nat := do
  let newPolicyId ← reads nextPolicyId
  let next ← orFail (checkedAdd 64 newPolicyId 1) .underOverflow
  updates fun r => { r with policyIdCounter := next }
  pure newPolicyId

def createPolicy (admin : Address) (policyType : PolicyType) : Exec Tip403Registry Nat := do
  let policyType ← ofExcept (policyType.ensureIsSimple spec)
  let newPolicyId ← allocatePolicyId
  updates fun r => r.putBase newPolicyId ⟨policyType, admin⟩
  pure newPolicyId

/-- One of the initial accounts; other than for a simple type the call fails
here. -/
def addInitialAccount (policyType : PolicyType) (policyId : Nat)
    (account : Address) : Exec Tip403Registry Unit := do
  updates fun r => r.putMember policyId account true
  require (policyType = .whitelist ∨ policyType = .blacklist)
    (.tip403Registry .incompatiblePolicyType)

def createPolicyWithAccounts (admin : Address) (policyType : PolicyType)
    (accounts : List Address) : Exec Tip403Registry Nat := do
  let stored ← ofExcept (policyType.ensureIsSimple spec)
  require (¬(.t3 ≤ spec ∧ accounts.any Address.isVirtual))
    (.tip403Registry .virtualAddressNotAllowed)
  let newPolicyId ← allocatePolicyId
  updates fun r => r.putBase newPolicyId ⟨stored, admin⟩
  accounts.forM (addInitialAccount policyType newPolicyId)
  pure newPolicyId

def setPolicyAdmin (msgSender : Address) (policyId : Nat) (admin : Address) :
    Exec Tip403Registry Unit := do
  let r ← reads id
  let data ← ofExcept (getPolicyData spec r policyId)
  require (data.admin = msgSender) (.tip403Registry .unauthorized)
  updates fun r => r.putBase policyId { data with admin }

/-- Edits the members of a policy of the wanted type. -/
def modifyPolicy (wanted : PolicyType) (msgSender : Address) (policyId : Nat)
    (account : Address) (value : Bool) : Exec Tip403Registry Unit := do
  require (¬(.t3 ≤ spec ∧ account.isVirtual)) (.tip403Registry .virtualAddressNotAllowed)
  let r ← reads id
  let data ← ofExcept (getPolicyData spec r policyId)
  require (data.admin = msgSender) (.tip403Registry .unauthorized)
  let policyType ← ofExcept (data.decodeType spec)
  require (policyType = wanted) (.tip403Registry .incompatiblePolicyType)
  updates fun r => r.putMember policyId account value

def modifyPolicyWhitelist (msgSender : Address) (policyId : Nat)
    (account : Address) (allowed : Bool) : Exec Tip403Registry Unit :=
  modifyPolicy spec .whitelist msgSender policyId account allowed

def modifyPolicyBlacklist (msgSender : Address) (policyId : Nat)
    (account : Address) (restricted : Bool) : Exec Tip403Registry Unit :=
  modifyPolicy spec .blacklist msgSender policyId account restricted

def createCompoundPolicy (senderPolicyId recipientPolicyId
    mintRecipientPolicyId : Nat) : Exec Tip403Registry Nat := do
  let r ← reads id
  ofExcept (validateSimplePolicy spec r senderPolicyId)
  ofExcept (validateSimplePolicy spec r recipientPolicyId)
  ofExcept (validateSimplePolicy spec r mintRecipientPolicyId)
  let newPolicyId ← allocatePolicyId
  updates fun r => { r with
    policyRecords := update r.policyRecords newPolicyId ⟨⟨PolicyType.compound.toU8, 0⟩,
        ⟨senderPolicyId, recipientPolicyId, mintRecipientPolicyId⟩⟩ }
  pure newPolicyId

def setReceivePolicy (msgSender : Address) (senderPolicyId tokenFilterId : Nat)
    (recoveryAuthority : Address) : Exec Tip403Registry Unit := do
  require (msgSender.isVirtual = false) (.tip403Registry .virtualAddressNotAllowed)
  let recovery := RecoveryMode.encode recoveryAuthority msgSender
  require (¬(recoveryAuthority.isPrecompile spec ∨
    recoveryAuthority.isVirtual)) (.tip403Registry .invalidRecoveryAuthority)
  let r ← reads id
  let senderPolicyType ← ofExcept (validateReceivePolicyId spec r senderPolicyId)
  let tokenFilterType ← ofExcept (validateReceivePolicyId spec r tokenFilterId)
  updates fun r => { r with
    receivePolicies := update r.receivePolicies msgSender
      ⟨⟨true, senderPolicyId, senderPolicyType, tokenFilterId,
        tokenFilterType, recovery.1⟩, recovery.2⟩ }

end Tip403Registry

end Tempo
