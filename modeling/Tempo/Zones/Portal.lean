/-
The zone portal on Tempo: deposits into the zone's queue, refunds, token
enablement and the settlement of batches.  The state is the portal's storage
with the balances of the bridged tokens and the log of what the portal did;
a call that reverts undoes all of it.
-/
import Tempo.Library.Totals
import Tempo.Zones.Governance
import Tempo.Zones.WithdrawalQueue

namespace Tempo.Zones

open Function

/-- The reentrancy guard of withdrawal delivery. -/
inductive WithdrawalStatus where
  | notEntered | processing | callbackDepositAvailable
  | callbackDepositConsumed
  deriving DecidableEq, Repr

structure Portal (H : Type) where
  governance : Governance
  withdrawalBatchIndex : Nat
  blockHash : B256
  currentDepositQueueHash : H
  depositCount : Nat
  lastProcessedDepositNumber : Nat
  lastSyncedTempoBlockNumber : Nat
  enabledTokens : List Address
  tokenEnablementHash : H
  lastProcessedEnabledTokenCount : Nat
  tokenEnablementCursorInitialized : Bool
  refunds : Address → Address → Nat
  withdrawalQueue : WithdrawalQueue H
  withdrawalReentrancyStatus : WithdrawalStatus
  zoneId : Nat
  messenger : Address
  verifier : Address
  zoneHeight : Nat
  initialized : Bool

/-- Before initialization. -/
def Portal.blank {H : Type} [Zero H] : Portal H where
  governance := .blank
  withdrawalBatchIndex := 0
  blockHash := 0
  currentDepositQueueHash := 0
  depositCount := 0
  lastProcessedDepositNumber := 0
  lastSyncedTempoBlockNumber := 0
  enabledTokens := []
  tokenEnablementHash := 0
  lastProcessedEnabledTokenCount := 0
  tokenEnablementCursorInitialized := false
  refunds := fun _ _ => 0
  withdrawalQueue := .empty
  withdrawalReentrancyStatus := .notEntered
  zoneId := 0
  messenger := 0
  verifier := 0
  zoneHeight := 0
  initialized := false

/-- What the signers of a settlement attest, before hashing. -/
structure Settlement (H : Type) where
  chainid : Nat
  portal : Address
  zoneId : Nat
  sequencerSetVersion : Nat
  zoneHeight : Nat
  withdrawalBatchIndex : Nat
  verifier : Address
  tempoBlockNumber : Nat
  anchorBlockNumber : Nat
  anchorBlockHash : B256
  blockTransition : BlockTransition
  depositQueueTransition : DepositQueueTransition H
  tokenEnablementTransition : TokenEnablementTransition
  withdrawalQueueHash : H
  verifierConfig : Bytes
  deriving DecidableEq

/-- An accepted batch, with the signatures it was submitted under and the
sequencers they were checked against. -/
structure AcceptedBatch (H : Type) where
  settlement : Settlement H
  signatures : List Bytes
  sequencers : List Address
  threshold : Nat

/-- What a portal did, oldest first; the events of the deposit, withdrawal
and settlement flows. -/
inductive PortalEvent (H : Type) where
  | tokenEnabled (token : EnabledToken)
  | depositMade (newCurrentDepositQueueHash : H) (deposit : Deposit) (fee depositNumber : Nat)
  | withdrawalBounceBack (newCurrentDepositQueueHash : H)
      (fallbackNonce : BitVec 64) (token : Address) (amount depositNumber : Nat)
  | dequeued (withdrawal : Withdrawal)
  | withdrawalProcessed (to' : Address) (senderTag : B256) (token : Address)
      (amount : Nat) (success : Bool)
  | depositBounceBack (to' token : Address) (amount fee : Nat)
  | depositBounceBackPending (to' token : Address) (amount fee : Nat)
  | refundClaimed (account token : Address) (amount : Nat)
  | batchSubmitted (batch : AcceptedBatch H)

/-- The portal with what its calls can change on Tempo. -/
structure L1 (H : Type) where
  portal : Portal H
  /-- Balances by token and account. -/
  balances : Address → Address → Nat
  log : List (PortalEvent H)
  /-- Amounts of recorded deposits that never arrived, by token. -/
  unpaid : Address → Nat
  /-- Amounts the portal came to hold without a deposit, by token: sent or
  minted to it by others, paid by it to itself, or a fee never passed on. -/
  given : Address → Nat

/-- The answer of a called contract. -/
inductive Reply where
  | reverts
  | returns (ok : Bool)
  deriving DecidableEq, Repr

/-- How the registries and the token answer an attempted transfer. -/
structure TransferBehaviour where
  resolves : Bool
  receivePolicy : Reply
  transfer : Reply
  deriving DecidableEq, Repr

/-- One portal: its address, the hash, and the precompile that recovers the
signers of its settlements. -/
structure Deployment (H : Type) where
  keccak : Keccak H
  self : Address
  /-- The signer of a digest, `none` when the precompile reverts. -/
  recover : H → Bytes → Option Address

def fixedDepositGas : Nat := 100000

def maxUnprocessedDeposits : Nat := 230

def maxUnprocessedTokenEnablements : Nat := 8

def maxTokenMetadataBytes : Nat := 31

def withdrawalProcessingDepositReserve : Nat := 20

def tempoBaseFeeScale : Nat := 10 ^ 12

def maxWithdrawalGasLimit : Nat := 10000000

def encryptedPayloadPlaintextSize : Nat := 64

def zoneFactoryAddress : Address :=
  ⟨0x5aF2000000000000000000000000000000000000#160⟩

def zonePortalImplAddress : Address :=
  ⟨0x5AD1000000000000000000000000000000000000#160⟩

abbrev PortalExec (H : Type) := EStateM PortalError (L1 H)

namespace L1

variable {H : Type}

/-- Run a governance call on the portal. -/
def governed {α : Type} (m : GovExec α) : PortalExec H α :=
  focus (fun s => s.portal.governance)
    (fun s g => { s with portal := { s.portal with governance := g } }) m

def setPortal (f : Portal H → Portal H) : PortalExec H Unit :=
  updates fun s => { s with portal := f s.portal }

def emit (e : PortalEvent H) : PortalExec H Unit :=
  updates fun s => { s with log := s.log ++ [e] }

def setStatus (status : WithdrawalStatus) : PortalExec H Unit :=
  setPortal fun p => { p with withdrawalReentrancyStatus := status }

/-- The balances after `amount` of `token` went from one account to
another. -/
def moved (balances : Address → Address → Nat) (token source target : Address)
    (amount : Nat) : Address → Address → Nat :=
  update balances token (credit (debit (balances token) source amount) target amount)

/-- A transfer moves exactly the amount when the token returns true. -/
def transfer (token source target : Address) (amount : Nat) : Reply → PortalExec H Bool
  | .reverts => fails .external
  | .returns false => pure false
  | .returns true => do
    let s ← reads id
    require (amount ≤ s.balances token source) .external
    updates fun s =>
      { s with
        balances := moved s.balances token source target amount
        given :=
          if source = target then credit s.given token amount else s.given }
    pure true

end L1

/-- The outcome of the signature loop: distinct current sequencers, one for
each signature. -/
def recoverSigners (recover : Bytes → Option Address) (g : Governance) (recovered : List Address) :
    List Bytes → Option (List Address)
  | [] => some recovered
  | signature :: rest =>
    match recover signature with
    | none => none
    | some signer =>
      if signer = 0 ∨ ¬g.isSequencer signer then none
      else if signer ∈ recovered then none
      else recoverSigners recover g (recovered ++ [signer]) rest

namespace Deployment

variable {H : Type} [Zero H] [DecidableEq H] (d : Deployment H)

open L1

/-! Tokens. -/

def enableTokenInternal (env : CallEnv H) (token : Address) : PortalExec H Unit := do
  let meta' ← orFail (env.metadata token) .external
  require (meta'.name.utf8ByteSize ≤ maxTokenMetadataBytes ∧
    meta'.symbol.utf8ByteSize ≤ maxTokenMetadataBytes ∧
    meta'.currency.utf8ByteSize ≤ maxTokenMetadataBytes) .tokenMetadataTooLong
  require (env.transferPolicySet token ∨ env.transferPolicyMigrated token)
    .tokenTransferPolicyNotSet
  let enabled := { meta' with token := token }
  setPortal fun p =>
    { p with
      tokenEnablementHash := d.keccak.tokenEnablement enabled p.tokenEnablementHash
      governance :=
        { p.governance with
          tokenConfigs := update p.governance.tokenConfigs token ⟨true, true⟩ }
      enabledTokens := p.enabledTokens ++ [token] }
  emit (.tokenEnabled enabled)

def enableToken (env : CallEnv H) (token : Address) : PortalExec H Unit := do
  governed (Governance.onlyAdmin env)
  let p ← reads fun s => s.portal
  require (¬(p.governance.tokenConfigs token).enabled) .tokenAlreadyEnabled
  require (env.isTIP20 token) .tokenNotEnabled
  require p.tokenEnablementCursorInitialized .tokenEnablementCursorNotInitialized
  require (p.lastProcessedEnabledTokenCount ≤ p.enabledTokens.length) .arithmetic
  require (p.enabledTokens.length - p.lastProcessedEnabledTokenCount <
    maxUnprocessedTokenEnablements)
    (.tokenEnablementBlockCapacityExceeded maxUnprocessedTokenEnablements)
  d.enableTokenInternal env token

/-! Deposits. -/

/-- Checked: the rate is at most `maxGasFeeRate`, but any rate is accepted
here. -/
def calculateDepositFee (g : Governance) : PortalExec H Nat := do
  require (fixedDepositGas * g.zoneGasRate < 2 ^ 128) .arithmetic
  pure (fixedDepositGas * g.zoneGasRate)

/-- Rounded up after scaling; both factors are 64-bit, so nothing
overflows before the cast. -/
def calculateBouncebackFee (env : CallEnv H) (g : Governance) : Nat :=
  (g.bouncebackGas.toNat * env.basefee.toNat + tempoBaseFeeScale - 1) / tempoBaseFeeScale % 2 ^ 128

def validateDepositsActive (g : Governance) (token : Address) : PortalExec H Unit := do
  require (g.tokenConfigs token).enabled .tokenNotEnabled
  require (g.tokenConfigs token).depositsActive .depositsNotActive

def requireAllowed (g : Governance) (account : Address) : PortalExec H Unit :=
  require (g.isAllowed account) (.accountNotAllowed account)

def requireAllowedDepositor (g : Governance) (account : Address) : PortalExec H Unit :=
  require (¬g.isAccessEnforced ∨ (g.isGatewayEnforced ∧ g.hasRole account .callbackGateway) ∨
    g.hasRole account .account) (.accountNotAllowed account)

def requireEncryptionKey (env : CallEnv H) (g : Governance)
    (keyIndex : Nat) : PortalExec H Unit := do
  let valid ← ofExcept (g.isEncryptionKeyValid env.number keyIndex)
  require (valid ∨ keyIndex < g.encryptionKeys.length) (.invalidEncryptionKeyIndex keyIndex)
  require valid (.encryptionKeyExpired keyIndex
    ((g.encryptionKeys[keyIndex]?.map (·.activationBlock)).getD 0)
    ((g.encryptionKeys[keyIndex + 1]?.map (·.activationBlock)).getD 0))

/-- Pull `amount` into the portal.  The answer is not looked at, since TIP-20
transfers revert on failure; what a token that answers false leaves behind is
kept in `unpaid`. -/
def pull (token source : Address) (amount : Nat) (collect : Reply) : PortalExec H Unit := do
  let collected ← transfer token source d.self amount collect
  updates fun s =>
    { s with
      unpaid := credit s.unpaid token (if collected then 0 else amount) }

/-- Pass a fee on, without looking at the answer either. -/
def passOn (token target : Address) (fee : Nat) (feeTransfer : Reply) : PortalExec H Unit := do
  let sent ← transfer token d.self target fee feeTransfer
  updates fun s =>
    { s with given := credit s.given token (if sent then 0 else fee) }

/-- Take the deposit from the sender and pass the fee on to the admin;
returns the fee and the net amount. -/
def collectDepositFunds (env : CallEnv H) (token : Address) (amount : Nat)
    (collect feeTransfer : Reply) : PortalExec H (Nat × Nat) := do
  let g ← reads fun s => s.portal.governance
  let fee ← calculateDepositFee g
  let bouncebackFee := calculateBouncebackFee env g
  require (fee + bouncebackFee < 2 ^ 128) .arithmetic
  require (fee + bouncebackFee ≤ amount) .depositTooSmall
  d.pull token env.sender amount collect
  if fee > 0 then
    d.passOn token (env.resolveRecipient g.admin) fee feeTransfer
  pure (fee, amount - fee)

/-- Unprocessed deposits; checked. -/
def unprocessedDeposits : PortalExec H Nat := do
  let p ← reads fun s => s.portal
  require (p.lastProcessedDepositNumber ≤ p.depositCount) .arithmetic
  pure (p.depositCount - p.lastProcessedDepositNumber)

/-- Append to the deposit queue while fewer than `maximum` are
unprocessed; returns the deposit's number. -/
def recordDeposit (newCurrentDepositQueueHash : H) (maximum : Nat) : PortalExec H Nat := do
  let unprocessed ← unprocessedDeposits
  require (unprocessed < maximum) (.depositBlockCapacityExceeded maximum)
  let p ← reads fun s => s.portal
  require (p.depositCount + 1 < 2 ^ 64) .arithmetic
  setPortal fun p =>
    { p with
      currentDepositQueueHash := newCurrentDepositQueueHash
      depositCount := p.depositCount + 1 }
  pure (p.depositCount + 1)

/-- What a deposit is checked against: a withdrawal callback may return one
deposit through the reserve, all others are under the public cap. -/
def depositMaximum (status : WithdrawalStatus) : Nat :=
  if status = .callbackDepositAvailable then maxUnprocessedDeposits
  else maxUnprocessedDeposits - withdrawalProcessingDepositReserve

/-- The status once a deposit was made. -/
def depositStatus (status : WithdrawalStatus) : WithdrawalStatus :=
  if status = .callbackDepositAvailable then .callbackDepositConsumed
  else status

/-- Insert a user deposit into the queue. -/
def enqueueDeposit (depositData : Deposit) (fee : Nat) : PortalExec H Unit := do
  let p ← reads fun s => s.portal
  let newHash :=
    d.keccak.queuedDeposit (.deposit depositData) p.currentDepositQueueHash
  setStatus (depositStatus p.withdrawalReentrancyStatus)
  let thisDeposit ← recordDeposit newHash (depositMaximum p.withdrawalReentrancyStatus)
  emit (.depositMade newHash depositData fee thisDeposit)

/-- The arguments of a deposit, with the answers of the token. -/
structure DepositArgs where
  token : Address
  amount : Nat
  keyIndex : Nat
  encrypted : DepositPayload
  tempoRefundRecipient : Address
  collect : Reply
  feeTransfer : Reply

def depositInternal (env : CallEnv H) (a : DepositArgs) : PortalExec H Unit := do
  require (a.tempoRefundRecipient ≠ 0) .invalidBouncebackRecipient
  let g ← reads fun s => s.portal.governance
  requireAllowedDepositor g env.sender
  requireAllowed g a.tempoRefundRecipient
  validateDepositsActive g a.token
  let authorized ← orFail (env.isAuthorizedRecipient a.token a.tempoRefundRecipient) .external
  require authorized .policyForbids
  require (Governance.isCompressedYParity a.encrypted.ephemeralPubkeyYParity)
    .invalidEphemeralPubkey
  require (env.isValidX a.encrypted.ephemeralPubkeyX) .invalidEphemeralPubkey
  require (a.encrypted.ciphertext.length = encryptedPayloadPlaintextSize)
    (.invalidCiphertextLength a.encrypted.ciphertext.length encryptedPayloadPlaintextSize)
  requireEncryptionKey env g a.keyIndex
  let (fee, netAmount) ← d.collectDepositFunds env a.token a.amount a.collect a.feeTransfer
  let depositData : Deposit :=
    { token := a.token, sender := env.sender, amount := netAmount,
      tempoRefundRecipient := a.tempoRefundRecipient,
      keyIndex := a.keyIndex, encrypted := a.encrypted }
  d.enqueueDeposit depositData fee

def deposit (env : CallEnv H) (a : DepositArgs) : PortalExec H Unit := do
  governed (Governance.whenNotPaused env)
  d.depositInternal env a

def depositEncrypted (env : CallEnv H) (a : DepositArgs) : PortalExec H Unit := do
  governed (Governance.whenNotPaused env)
  d.depositInternal env a

/-! Refunds. -/

/-- Attempt a transfer out of the portal without passing on a revert; true
when it went through to `to'`. -/
def tryTransfer (env : CallEnv H) (token to' : Address) (amount : Nat)
    (b : TransferBehaviour) : PortalExec H Bool :=
  if b.resolves ∧ b.receivePolicy = .returns true then do
    let outcome ← attempts (rollback
      (transfer token d.self (env.resolveRecipient to') amount b.transfer))
    match outcome with
    | .ok ok => pure ok
    | .error _ => pure false
  else pure false

/-- The same under a condition checked first. -/
def tryTransferWhen (allowed : Bool) (env : CallEnv H)
    (token to' : Address) (amount : Nat) (b : TransferBehaviour) : PortalExec H Bool :=
  if allowed then d.tryTransfer env token to' amount b else pure false

def claimRefund (env : CallEnv H) (token : Address)
    (b : TransferBehaviour) : PortalExec H Unit := do
  let p ← reads fun s => s.portal
  requireAllowed p.governance env.sender
  let amount := p.refunds token env.sender
  setPortal fun p =>
    { p with
      refunds := update p.refunds token (update (p.refunds token) env.sender 0) }
  let sent ← d.tryTransfer env token env.sender amount b
  require sent .callbackRejected
  emit (.refundClaimed env.sender token amount)

/-! Settlement. -/

def domainSeparator (chainid : Nat) (portal : Address) : H :=
  d.keccak.domainSeparator chainid portal

/-- The digest the sequencers sign. -/
def settlementDigest (t : Settlement H) : H :=
  d.keccak.typedData (d.domainSeparator t.chainid t.portal) (d.keccak.settlementAttestation
      { zoneId := t.zoneId
        sequencerSetVersion := t.sequencerSetVersion
        zoneHeight := t.zoneHeight
        withdrawalBatchIndex := t.withdrawalBatchIndex
        verifier := t.verifier
        tempoBlockNumber := t.tempoBlockNumber
        anchorBlockNumber := t.anchorBlockNumber
        anchorBlockHash := t.anchorBlockHash
        blockTransitionHash := d.keccak.blockTransition t.blockTransition
        depositQueueTransitionHash :=
          d.keccak.depositQueueTransition t.depositQueueTransition
        tokenEnablementTransitionHash :=
          d.keccak.tokenEnablementTransition t.tokenEnablementTransition
        withdrawalQueueHash := t.withdrawalQueueHash
        verifierConfigHash := d.keccak.verifierConfig t.verifierConfig })

/-- Whether enough distinct current sequencers signed the settlement. -/
def verifySettlement (p : Portal H) (t : Settlement H)
    (signatures : List Bytes) : PortalExec H Bool :=
  let threshold := p.governance.sequencerThreshold
  if t.zoneHeight ≤ p.zoneHeight ∨ signatures.length < threshold ∨
      signatures.length > p.governance.sequencers.length then pure false
  else do
    require (t.withdrawalBatchIndex < 2 ^ 64) .arithmetic
    pure ((recoverSigners (d.recover (d.settlementDigest t)) p.governance []
      signatures).isSome && threshold ≤ signatures.length)

/-- The arguments of `submitBatch`, with the answer of the verifier to the
proof. -/
structure BatchArgs (H : Type) where
  tempoBlockNumber : Nat
  recentTempoBlockNumber : Nat
  blockTransition : BlockTransition
  depositQueueTransition : DepositQueueTransition H
  tokenEnablementTransition : TokenEnablementTransition
  withdrawalQueueHash : H
  verifierConfig : Bytes
  proof : Reply
  nextZoneHeight : Nat
  signatures : List Bytes

/-- The anchor block, either the synced block itself or a later one whose
ancestry the proof covers. -/
def anchor (env : CallEnv H) (a : BatchArgs H) : PortalExec H (Nat × B256) := do
  let number :=
    if a.recentTempoBlockNumber = 0 then a.tempoBlockNumber
    else a.recentTempoBlockNumber
  require (a.recentTempoBlockNumber = 0 ∨
    a.tempoBlockNumber < a.recentTempoBlockNumber) .invalidTempoBlockNumber
  require (number ≤ env.number) .invalidTempoBlockNumber
  require (env.getBlockHash number ≠ 0) .invalidTempoBlockNumber
  pure (number, env.getBlockHash number)

def checkDepositTransition (p : Portal H) (t : DepositQueueTransition H) : PortalExec H Unit :=
  require (¬(t.prevDepositNumber ≠ p.lastProcessedDepositNumber ∨
    t.nextDepositNumber < t.prevDepositNumber ∨
    t.nextDepositNumber > p.depositCount)) .invalidDepositTransition

def checkTokenTransition (p : Portal H) (t : TokenEnablementTransition) : PortalExec H Unit := do
  let enabledCount := p.enabledTokens.length % 2 ^ 64
  let expectedPrev :=
    if p.tokenEnablementCursorInitialized then
      p.lastProcessedEnabledTokenCount
    else 0
  require (¬(t.prevProcessedTokenCount ≠ expectedPrev ∨
    t.nextProcessedTokenCount < t.prevProcessedTokenCount ∨
    t.nextProcessedTokenCount > enabledCount)) .invalidTokenEnablementTransition
  require (¬(¬p.tokenEnablementCursorInitialized ∧ t.nextProcessedTokenCount ≠ 0 ∧
    enabledCount - t.nextProcessedTokenCount >
      maxUnprocessedTokenEnablements)) .invalidTokenEnablementTransition

/-- What is settled when a batch is submitted. -/
def settlementOf (env : CallEnv H) (p : Portal H) (a : BatchArgs H)
    (anchorBlockNumber : Nat) (anchorBlockHash : B256) : Settlement H where
  chainid := env.chainid
  portal := d.self
  zoneId := p.zoneId
  sequencerSetVersion := p.governance.sequencerSetVersion
  zoneHeight := a.nextZoneHeight
  withdrawalBatchIndex := p.withdrawalBatchIndex + 1
  verifier := p.verifier
  tempoBlockNumber := a.tempoBlockNumber
  anchorBlockNumber := anchorBlockNumber
  anchorBlockHash := anchorBlockHash
  blockTransition := a.blockTransition
  depositQueueTransition := a.depositQueueTransition
  tokenEnablementTransition := a.tokenEnablementTransition
  withdrawalQueueHash := a.withdrawalQueueHash
  verifierConfig := a.verifierConfig

/-- The portal once a batch is accepted. -/
def settle (p : Portal H) (t : Settlement H) : Portal H :=
  let tracked := p.tokenEnablementCursorInitialized ||
    t.tokenEnablementTransition.nextProcessedTokenCount != 0
  { p with
    withdrawalBatchIndex := p.withdrawalBatchIndex + 1
    blockHash := t.blockTransition.nextBlockHash
    lastSyncedTempoBlockNumber := t.tempoBlockNumber
    lastProcessedDepositNumber := t.depositQueueTransition.nextDepositNumber
    lastProcessedEnabledTokenCount :=
      if tracked then t.tokenEnablementTransition.nextProcessedTokenCount
      else p.lastProcessedEnabledTokenCount
    tokenEnablementCursorInitialized := tracked
    zoneHeight := t.zoneHeight
    withdrawalQueue := p.withdrawalQueue.enqueue t.withdrawalQueueHash }

def submitBatch (env : CallEnv H) (a : BatchArgs H) : PortalExec H Unit := do
  governed (Governance.onlySequencer env)
  let p ← reads fun s => s.portal
  require (a.blockTransition.prevBlockHash = p.blockHash) .invalidProof
  let (anchorBlockNumber, anchorBlockHash) ← anchor env a
  let t := d.settlementOf env p a anchorBlockNumber anchorBlockHash
  let signed ← d.verifySettlement p t a.signatures
  require signed .invalidQuorumCertificate
  checkDepositTransition p a.depositQueueTransition
  checkTokenTransition p a.tokenEnablementTransition
  require (a.proof ≠ .reverts) .external
  require (a.proof = .returns true) .invalidProof
  setPortal fun p => settle p t
  emit (.batchSubmitted
    { settlement := t
      signatures := a.signatures
      sequencers := p.governance.sequencers
      threshold := p.governance.sequencerThreshold })

/-! Initialization. -/

/-- The arguments of `initialize`. -/
structure InitArgs where
  zoneId : Nat
  initialToken : Address
  accessEnforced : Bool
  gatewayEnforced : Bool
  allowedAccounts : List Address
  zoneGateways : List Address
  messenger : Address
  admin : Address
  initialSequencers : List Address
  threshold : Nat
  verifier : Address

/-- Give listed accounts a role none of them may already have. -/
def grantRoles (r : Role) (forbidden : Option Address) : List Address → GovExec Unit
  | [] => pure ()
  | account :: rest => do
    require (forbidden ≠ some account) .requirement
    let g ← reads id
    require (g.role account = .none) .requirement
    updates fun g => { g with role := update g.role account r }
    grantRoles r forbidden rest

def initializePortal (env : CallEnv H) (a : InitArgs) : PortalExec H Unit := do
  require (d.self ≠ zonePortalImplAddress) .mustDelegateCall
  require (env.sender = zoneFactoryAddress) .notFactory
  let p ← reads fun s => s.portal
  require (¬p.initialized) .alreadyInitialized
  setPortal fun p =>
    { p with
      initialized := true
      zoneId := a.zoneId
      messenger := a.messenger
      verifier := a.verifier
      governance :=
        { p.governance with
          admin := a.admin
          isAccessEnforced := a.accessEnforced
          isGatewayEnforced := a.gatewayEnforced } }
  governed (Governance.replaceSequencerSet a.initialSequencers a.threshold false)
  let leader ← orFail a.initialSequencers.head? .arithmetic
  governed (Governance.assignLeader env leader)
  governed (grantRoles .callbackGateway none a.zoneGateways)
  governed (grantRoles .account (some a.messenger) a.allowedAccounts)
  d.enableTokenInternal env a.initialToken

end Deployment

end Tempo.Zones
