/-
Who may do what at a zone portal: its admin, roles, sequencer set and leader,
pause and abdication, rates, encryption keys and per-token switches, with the
calls that change nothing else.
-/
import Tempo.Library.Exec
import Tempo.Zones.Messages

namespace Tempo.Zones

open Function

inductive Role where
  | none | sequencer | account | callbackGateway | pauseGuardian
  deriving DecidableEq, Repr

/-- Configuration surfaces that can be given up for good. -/
inductive Capability where
  | pausePortal | accessPolicy
  deriving DecidableEq, Repr

inductive PortalError where
  | notSequencer | notAdmin | notPauseAuthority
  | capabilityAbdicated (capability : Capability)
  | abdicationAlreadyScheduled (capability : Capability)
  | portalIsPaused | notFactory | notSelf | alreadyInitialized
  | mustDelegateCall | notPendingAdmin | invalidProof
  | invalidTempoBlockNumber | callbackRejected | transferFailed
  | reentrantWithdrawal
  | encryptionKeyExpired (keyIndex activationBlock supersededAtBlock : Nat)
  | invalidEncryptionKeyIndex (keyIndex : Nat)
  | invalidEphemeralPubkey
  | invalidCiphertextLength (actual expected : Nat)
  | invalidProofOfPossession | depositTooSmall
  | depositBlockCapacityExceeded (maximum : Nat)
  | tokenEnablementBlockCapacityExceeded (maximum : Nat)
  | tokenMetadataTooLong | gasFeeRateTooHigh | tokenNotEnabled
  | depositsNotActive | tokenAlreadyEnabled | tokenTransferPolicyNotSet
  | tokenEnablementCursorNotInitialized | invalidBouncebackRecipient
  | invalidDepositTransition | invalidTokenEnablementTransition
  | invalidSequencerSet | sequencerConfigurationUnchanged | invalidLeader
  | activeLeaderRemoved | leaderAlreadyUpdatedThisBlock
  | staleLeadershipEpoch (expected actual : Nat)
  | invalidQuorumCertificate | invalidCallbackTarget
  | callbackDidNotReturnToZone
  | accountNotAllowed (account : Address)
  | policyForbids | invalidWithdrawalProof
  /-- A `require` without a message. -/
  | requirement
  /-- A checked operation left its type. -/
  | arithmetic
  /-- The revert of a called contract, passed on. -/
  | external
  deriving DecidableEq, Repr

structure EncryptionKeyEntry where
  x : B256
  yParity : Nat
  activationBlock : Nat
  deriving DecidableEq, Repr

structure TokenConfig where
  enabled : Bool
  depositsActive : Bool
  deriving DecidableEq, Repr

structure Governance where
  admin : Address
  pendingAdmin : Address
  zoneGasRate : Nat
  maxTempoGasRate : Nat
  bouncebackGas : UInt64
  encryptionKeys : List EncryptionKeyEntry
  tokenConfigs : Address → TokenConfig
  role : Address → Role
  isAccessEnforced : Bool
  isGatewayEnforced : Bool
  abdicationEffectiveAt : Capability → Nat
  pauseExpiry : Nat
  sequencers : List Address
  sequencerThreshold : Nat
  sequencerSetVersion : Nat
  leader : Address
  leaderEpoch : Nat
  leaderActivationTempoBlock : Nat

/-- The sender and the block of a call, with the cryptographic precompiles
and registries it can reach. -/
structure CallEnv (H : Type) where
  sender : Address
  number : Nat
  timestamp : Nat
  basefee : UInt64
  chainid : Nat
  /-- The block hash history; zero for a block it does not hold. -/
  getBlockHash : Nat → B256
  isValidX : B256 → Bool
  deriveAddress : B256 → Nat → Address
  ecrecover : H → Nat → B256 → B256 → Address
  isTIP20 : Address → Bool
  /-- The metadata of a token, `none` when reading it reverts. -/
  metadata : Address → Option EnabledToken
  /-- Whether a token's transfer policy is set, before and after a
  migration. -/
  transferPolicySet : Address → Bool
  transferPolicyMigrated : Address → Bool
  /-- The answer of a token's policy for a recipient, `none` on a revert. -/
  isAuthorizedRecipient : Address → Address → Option Bool
  /-- Where a transfer to an address ends up. -/
  resolveRecipient : Address → Address

def maxGasFeeRate : Nat := 10 ^ 18

def maxSequencers : Nat := 8

def pauseDuration : Nat := 30 * 24 * 60 * 60

def abdicationDelay : Nat := pauseDuration

def encryptionKeyGracePeriod : Nat := 86400

abbrev GovExec := EStateM PortalError Governance

namespace Governance

variable {H : Type}

/-- Before initialization. -/
def blank : Governance where
  admin := 0
  pendingAdmin := 0
  zoneGasRate := 0
  maxTempoGasRate := 0
  bouncebackGas := 0
  encryptionKeys := []
  tokenConfigs := fun _ => ⟨false, false⟩
  role := fun _ => .none
  isAccessEnforced := false
  isGatewayEnforced := false
  abdicationEffectiveAt := fun _ => 0
  pauseExpiry := 0
  sequencers := []
  sequencerThreshold := 0
  sequencerSetVersion := 0
  leader := 0
  leaderEpoch := 0
  leaderActivationTempoBlock := 0

def isSequencer (g : Governance) (account : Address) : Bool :=
  g.role account == .sequencer

def hasRole (g : Governance) (account : Address) (expected : Role) : Bool :=
  g.role account == expected

def paused (g : Governance) (timestamp : Nat) : Bool :=
  timestamp < g.pauseExpiry

def isAllowed (g : Governance) (account : Address) : Bool :=
  !g.isAccessEnforced || g.hasRole account .account

/-- Whether a key can be used for a deposit in this block, given that its
expiration fits the counter. -/
def isEncryptionKeyValid (g : Governance) (number keyIndex : Nat) : Except PortalError Bool :=
  if keyIndex ≥ g.encryptionKeys.length then .ok false
  else if keyIndex = g.encryptionKeys.length - 1 then .ok true
  else
    match g.encryptionKeys[keyIndex + 1]? with
    | none => .ok false
    | some nextKey =>
      let expiration := nextKey.activationBlock + encryptionKeyGracePeriod
      if 2 ^ 64 ≤ expiration then .error .arithmetic
      else .ok (number < expiration)

/-! Modifiers and checks. -/

def onlySequencer (env : CallEnv H) : GovExec Unit := do
  let g ← reads id
  require (g.isSequencer env.sender) .notSequencer

def onlySequencerOrAdmin (env : CallEnv H) : GovExec Unit := do
  let g ← reads id
  require (env.sender = g.admin ∨ g.isSequencer env.sender) .notSequencer

def onlyAdmin (env : CallEnv H) : GovExec Unit := do
  let g ← reads id
  require (env.sender = g.admin) .notAdmin

def whenNotPaused (env : CallEnv H) : GovExec Unit := do
  let g ← reads id
  require (¬g.paused env.timestamp) .portalIsPaused

def requireCapabilityActive (env : CallEnv H) (capability : Capability) : GovExec Unit := do
  let effectiveAt ← reads fun g => g.abdicationEffectiveAt capability
  require (¬(effectiveAt ≠ 0 ∧ env.timestamp ≥ effectiveAt)) (.capabilityAbdicated capability)

/-! The sequencer set. -/

/-- Every member is named once, is not the zero address and holds no other
role. -/
def checkSequencers (g : Governance) (seen : List Address) : List Address → GovExec Unit
  | [] => pure ()
  | signer :: rest => do
    require (signer ≠ 0) .invalidSequencerSet
    require (g.role signer = .none ∨ g.role signer = .sequencer) .requirement
    require (signer ∉ seen) .invalidSequencerSet
    checkSequencers g (seen ++ [signer]) rest

/-- Give every listed account the same role. -/
def assignRole (role : Address → Role) (r : Role) (accounts : List Address) : Address → Role :=
  accounts.foldl (fun f a => update f a r) role

def replaceSequencerSet (newSequencers : List Address) (newThreshold : Nat)
    (rejectUnchanged : Bool) : GovExec Unit := do
  let length := newSequencers.length
  require (¬(length = 0 ∨ length > maxSequencers ∨ newThreshold = 0 ∨
    newThreshold > length)) .invalidSequencerSet
  let g ← reads id
  checkSequencers g [] newSequencers
  let membersUnchanged :=
    length == g.sequencers.length && newSequencers.all g.isSequencer
  require (¬(rejectUnchanged ∧ membersUnchanged ∧
    newThreshold = g.sequencerThreshold)) .sequencerConfigurationUnchanged
  updates fun g =>
    { g with
      role := assignRole (assignRole g.role .none g.sequencers) .sequencer newSequencers
      sequencers := newSequencers }
  let g ← reads id
  require (¬(g.leader ≠ 0 ∧ ¬g.isSequencer g.leader)) .activeLeaderRemoved
  updates fun g => { g with sequencerThreshold := newThreshold }
  if rejectUnchanged then do
    require (g.sequencerSetVersion + 1 < 2 ^ 64) .arithmetic
    updates fun g =>
      { g with sequencerSetVersion := g.sequencerSetVersion + 1 }

def setSequencerSet (env : CallEnv H) (newSequencers : List Address)
    (newThreshold : Nat) : GovExec Unit := do
  onlyAdmin env
  replaceSequencerSet newSequencers newThreshold true

/-- The single write path of a leadership transition. -/
def assignLeader (env : CallEnv H) (newLeader : Address) : GovExec Unit := do
  let g ← reads id
  require (g.leaderEpoch + 1 < 2 ^ 64) .arithmetic
  updates fun g =>
    { g with
      leader := newLeader
      leaderEpoch := g.leaderEpoch + 1
      leaderActivationTempoBlock := env.number % 2 ^ 64 }

def setLeader (env : CallEnv H) (newLeader : Address) (expectedEpoch : Nat) : GovExec Unit := do
  onlySequencerOrAdmin env
  let g ← reads id
  require (g.isSequencer newLeader) .invalidLeader
  -- every node relays the same target; only the first call transitions
  if newLeader = g.leader then pure ()
  else do
    require (g.leaderEpoch = expectedEpoch) (.staleLeadershipEpoch expectedEpoch g.leaderEpoch)
    require (g.leaderActivationTempoBlock ≠ env.number % 2 ^ 64) .leaderAlreadyUpdatedThisBlock
    assignLeader env newLeader

/-! Rates and administration. -/

def setZoneGasRate (env : CallEnv H) (zoneGasRate : Nat) : GovExec Unit := do
  onlyAdmin env
  require (zoneGasRate ≤ maxGasFeeRate) .gasFeeRateTooHigh
  updates fun g => { g with zoneGasRate := zoneGasRate }

def setMaxTempoGasRate (env : CallEnv H) (maxTempoGasRate : Nat) : GovExec Unit := do
  onlyAdmin env
  require (maxTempoGasRate ≤ maxGasFeeRate) .gasFeeRateTooHigh
  updates fun g => { g with maxTempoGasRate := maxTempoGasRate }

def setBouncebackGas (env : CallEnv H) (bouncebackGas : UInt64) : GovExec Unit := do
  onlyAdmin env
  updates fun g => { g with bouncebackGas := bouncebackGas }

def transferAdmin (env : CallEnv H) (newAdmin : Address) : GovExec Unit := do
  onlyAdmin env
  updates fun g => { g with pendingAdmin := newAdmin }

def acceptAdmin (env : CallEnv H) : GovExec Unit := do
  let g ← reads id
  require (¬(g.pendingAdmin = 0 ∨ env.sender ≠ g.pendingAdmin)) .notPendingAdmin
  updates fun g => { g with admin := g.pendingAdmin, pendingAdmin := 0 }

def setAccessMode (env : CallEnv H) (enforced : Bool) : GovExec Unit := do
  onlyAdmin env
  requireCapabilityActive env .accessPolicy
  updates fun g => { g with isAccessEnforced := enforced }

def setGatewayMode (env : CallEnv H) (enforced : Bool) : GovExec Unit := do
  onlyAdmin env
  requireCapabilityActive env .accessPolicy
  updates fun g => { g with isGatewayEnforced := enforced }

/-- Give `account` the role `r`, or take it away; an account that already
stands as asked is left alone, one with another role is refused. -/
def toggleRole (r : Role) (account : Address) (allowed : Bool) : GovExec Unit := do
  let previous ← reads fun g => g.role account
  let next := if allowed then r else .none
  if previous = next then pure ()
  else do
    require (previous = if allowed then .none else r) .requirement
    updates fun g => { g with role := update g.role account next }

def setAllowedAccount (messenger : Address) (env : CallEnv H)
    (account : Address) (allowed : Bool) : GovExec Unit := do
  onlyAdmin env
  requireCapabilityActive env .accessPolicy
  require (allowed → account ≠ messenger) .requirement
  toggleRole .account account allowed

def setGateway (env : CallEnv H) (account : Address) (allowed : Bool) : GovExec Unit := do
  onlyAdmin env
  requireCapabilityActive env .accessPolicy
  toggleRole .callbackGateway account allowed

def setPauseGuardian (env : CallEnv H) (account : Address) (allowed : Bool) : GovExec Unit := do
  onlyAdmin env
  requireCapabilityActive env .pausePortal
  toggleRole .pauseGuardian account allowed

def pause (env : CallEnv H) : GovExec Unit := do
  whenNotPaused env
  requireCapabilityActive env .pausePortal
  let g ← reads id
  require (env.sender = g.admin ∨ g.isSequencer env.sender ∨
    g.hasRole env.sender .pauseGuardian) .notPauseAuthority
  require (env.timestamp % 2 ^ 64 + pauseDuration < 2 ^ 64) .arithmetic
  updates fun g =>
    { g with pauseExpiry := env.timestamp % 2 ^ 64 + pauseDuration }

def resume (env : CallEnv H) : GovExec Unit := do
  onlyAdmin env
  updates fun g => { g with pauseExpiry := 0 }

def abdicate (env : CallEnv H) (capability : Capability) : GovExec Unit := do
  onlyAdmin env
  whenNotPaused env
  let g ← reads id
  require (g.abdicationEffectiveAt capability = 0) (.abdicationAlreadyScheduled capability)
  require (env.timestamp % 2 ^ 64 + abdicationDelay < 2 ^ 64) .arithmetic
  updates fun g =>
    { g with
      abdicationEffectiveAt := update g.abdicationEffectiveAt
        capability (env.timestamp % 2 ^ 64 + abdicationDelay) }

/-! Tokens and keys. -/

/-- Switch the deposits of an enabled token on or off. -/
def setDepositsActive (env : CallEnv H) (token : Address) (active : Bool) : GovExec Unit := do
  onlyAdmin env
  let g ← reads id
  require (g.tokenConfigs token).enabled .tokenNotEnabled
  updates fun g =>
    { g with
      tokenConfigs := update g.tokenConfigs token
        { g.tokenConfigs token with depositsActive := active } }

def pauseDeposits (env : CallEnv H) (token : Address) : GovExec Unit :=
  setDepositsActive env token false

def resumeDeposits (env : CallEnv H) (token : Address) : GovExec Unit :=
  setDepositsActive env token true

def isCompressedYParity (yParity : Nat) : Bool :=
  yParity == 2 || yParity == 3

def setSequencerEncryptionKey (k : Keccak H) (self : Address)
    (env : CallEnv H) (x : B256) (yParity popV : Nat) (popR popS : B256) : GovExec Unit := do
  onlySequencerOrAdmin env
  require (isCompressedYParity yParity) .invalidEphemeralPubkey
  require (env.isValidX x) .invalidEphemeralPubkey
  let recovered :=
    env.ecrecover (k.proofOfPossession self x yParity) popV popR popS
  require (¬(recovered = 0 ∨ recovered ≠ env.deriveAddress x yParity)) .invalidProofOfPossession
  updates fun g =>
    { g with
      encryptionKeys := g.encryptionKeys ++
        [{ x, yParity, activationBlock := env.number % 2 ^ 64 }] }

end Governance

/-- The calls that only change the governance of a portal. -/
inductive GovernanceCall where
  | setSequencerSet (newSequencers : List Address) (newThreshold : Nat)
  | setLeader (newLeader : Address) (expectedEpoch : Nat)
  | setZoneGasRate (zoneGasRate : Nat)
  | setMaxTempoGasRate (maxTempoGasRate : Nat)
  | setBouncebackGas (bouncebackGas : UInt64)
  | transferAdmin (newAdmin : Address)
  | acceptAdmin
  | setAccessMode (enforced : Bool)
  | setGatewayMode (enforced : Bool)
  | setAllowedAccount (account : Address) (allowed : Bool)
  | setGateway (account : Address) (allowed : Bool)
  | setPauseGuardian (account : Address) (allowed : Bool)
  | pause
  | resume
  | abdicate (capability : Capability)
  | pauseDeposits (token : Address)
  | resumeDeposits (token : Address)
  | setSequencerEncryptionKey (x : B256) (yParity popV : Nat) (popR popS : B256)

def GovernanceCall.exec {H : Type} (k : Keccak H) (self messenger : Address)
    (env : CallEnv H) : GovernanceCall → GovExec Unit
  | setSequencerSet newSequencers newThreshold =>
    Governance.setSequencerSet env newSequencers newThreshold
  | setLeader newLeader expectedEpoch =>
    Governance.setLeader env newLeader expectedEpoch
  | setZoneGasRate rate => Governance.setZoneGasRate env rate
  | setMaxTempoGasRate rate => Governance.setMaxTempoGasRate env rate
  | setBouncebackGas gas => Governance.setBouncebackGas env gas
  | transferAdmin newAdmin => Governance.transferAdmin env newAdmin
  | acceptAdmin => Governance.acceptAdmin env
  | setAccessMode enforced => Governance.setAccessMode env enforced
  | setGatewayMode enforced => Governance.setGatewayMode env enforced
  | setAllowedAccount account allowed =>
    Governance.setAllowedAccount messenger env account allowed
  | setGateway account allowed => Governance.setGateway env account allowed
  | setPauseGuardian account allowed =>
    Governance.setPauseGuardian env account allowed
  | pause => Governance.pause env
  | resume => Governance.resume env
  | abdicate capability => Governance.abdicate env capability
  | pauseDeposits token => Governance.pauseDeposits env token
  | resumeDeposits token => Governance.resumeDeposits env token
  | setSequencerEncryptionKey x yParity popV popR popS =>
    Governance.setSequencerEncryptionKey k self env x yParity popV popR popS

end Tempo.Zones
