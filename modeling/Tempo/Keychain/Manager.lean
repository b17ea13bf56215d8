/-
The account keychain: access keys of an account with an expiry, limits on what
they may spend of each token and a scope of calls they may make.  Rows of a key
are addressed by the hash of account and key, taken here as the pair.  Gas,
events and storage failures are not modelled.
-/
import Tempo.Keychain.Scopes

namespace Tempo

open Function

inductive SignatureType where
  | secp256k1
  | p256
  | webAuthn
  | configurableAccount
  deriving DecidableEq

def SignatureType.toU8 : SignatureType → Nat
  | secp256k1 => 0
  | p256 => 1
  | webAuthn => 2
  | configurableAccount => 3

structure AuthorizedKey where
  signatureType : SignatureType
  expiry : Nat
  enforceLimits : Bool
  isRevoked : Bool
  isAdmin : Bool
  deriving DecidableEq

def AuthorizedKey.blank : AuthorizedKey :=
  ⟨.secp256k1, 0, false, false, false⟩

/-- A row of the spending limits; a period of zero means none. -/
structure SpendingLimitState where
  remaining : Nat
  max : Nat
  period : Nat
  periodEnd : Nat
  deriving DecidableEq

structure TokenLimit where
  token : Address
  amount : Nat
  period : Nat
  deriving DecidableEq

structure KeyRestrictions where
  expiry : Nat
  enforceLimits : Bool
  limits : List TokenLimit
  allowAnyCalls : Bool
  allowedCalls : List CallScope

structure AccountKeychain where
  keys : Address → Address → AuthorizedKey
  spendingLimits : Address × Address → Address → SpendingLimitState
  keyScopes : Address × Address → KeyScope
  keyAuthorizationWitnesses : Address → B256 → Bool
  transactionKey : Address
  txOrigin : Address

/-- The block a call is executed in and what is read of other contracts. -/
structure KeychainEnv extends ScopeEnv where
  blockTimestamp : Nat
  validAccount : Address → Bool
  hasCode : Address → Bool
  hasConfigCommitment : Address → Bool

/-- Timestamps are cut off at 64 bits. -/
def KeychainEnv.timestamp (env : KeychainEnv) : Nat :=
  min env.blockTimestamp (maxWord 64)

/-- Stands for a periodic remainder of zero, from T7 on. -/
def zeroPeriodicRemainingSentinel : Nat := maxWord 256

namespace SpendingLimitState

def blank : SpendingLimitState := ⟨0, 0, 0, 0⟩

def computeNextPeriodEnd (l : SpendingLimitState) (now : Nat) : Nat :=
  let elapsed := now - l.periodEnd
  let periodsElapsed := saturatingAdd 64 (elapsed / l.period) 1
  let advance := saturatingMul 64 l.period periodsElapsed
  saturatingAdd 64 l.periodEnd advance

/-- The remainder a periodic row stands for. -/
def decodeRemaining (spec : TempoHardfork) (l : SpendingLimitState) : Nat :=
  if .t7 ≤ spec ∧ l.remaining = zeroPeriodicRemainingSentinel then 0
  else l.remaining

def encodeRemaining (spec : TempoHardfork) (remaining : Nat) : Nat :=
  if .t7 ≤ spec ∧ remaining = 0 then zeroPeriodicRemainingSentinel
  else remaining

/-- The remainder and period end a periodic row has at a time. -/
def rollOver (spec : TempoHardfork) (now : Nat) (l : SpendingLimitState) : Nat × Nat :=
  if l.periodEnd ≤ now then (l.max, l.computeNextPeriodEnd now)
  else (l.decodeRemaining spec, l.periodEnd)

/-- A charge against the row. -/
def charge (spec : TempoHardfork) (now amount : Nat)
    (l : SpendingLimitState) : Except TempoPrecompileError SpendingLimitState :=
  if .t3 ≤ spec ∧ l.period ≠ 0 then
    let (remaining, periodEnd) := l.rollOver spec now
    if remaining < amount then .error (.accountKeychain .spendingLimitExceeded)
    else .ok { l with
      remaining := encodeRemaining spec (remaining - amount)
      periodEnd }
  else if l.remaining < amount then
    .error (.accountKeychain .spendingLimitExceeded)
  else .ok { l with remaining := l.remaining - amount }

/-- Rows from before T3 have no maximum and are not clamped. -/
def refund (spec : TempoHardfork) (amount : Nat) (l : SpendingLimitState) : SpendingLimitState :=
  if .t3 ≤ spec then
    let refunded :=
      if .t7 ≤ spec ∧ l.period ≠ 0 ∧ l.remaining = zeroPeriodicRemainingSentinel then amount
      else saturatingAdd 256 l.remaining amount
    { l with remaining := if l.max = 0 then refunded else min refunded l.max }
  else { l with remaining := saturatingAdd 256 l.remaining amount }

end SpendingLimitState

namespace AccountKeychain

def empty : AccountKeychain where
  keys _ _ := .blank
  spendingLimits _ _ := .blank
  keyScopes _ := .blank
  keyAuthorizationWitnesses _ _ := false
  transactionKey := 0
  txOrigin := 0

def putKey (s : AccountKeychain) (account keyId : Address)
    (key : AuthorizedKey) : AccountKeychain :=
  { s with
    keys := update s.keys account (update (s.keys account) keyId key) }

def putLimit (s : AccountKeychain) (row : Address × Address) (token : Address)
    (l : SpendingLimitState) : AccountKeychain :=
  { s with
    spendingLimits := update s.spendingLimits row (update (s.spendingLimits row) token l) }

def onScope {α : Type} (row : Address × Address) (m : Exec KeyScope α) : Exec AccountKeychain α :=
  focus (fun s => s.keyScopes row) (fun s scope => { s with
      keyScopes := update s.keyScopes row scope }) m

def t3SpendingLimitCap (limit : Nat) : Except TempoPrecompileError Nat :=
  if maxWord 128 < limit then .error (.accountKeychain .invalidSpendingLimit)
  else .ok limit

/-! Keys and callers. -/

def loadActiveKey (s : AccountKeychain) (account keyId : Address)
    (now : Nat) : Except TempoPrecompileError AuthorizedKey :=
  let key := s.keys account keyId
  if key.isRevoked then .error (.accountKeychain .keyAlreadyRevoked)
  else if key.expiry = 0 then .error (.accountKeychain .keyNotFound)
  else if key.expiry ≤ now then .error (.accountKeychain .keyExpired)
  else .ok key

/-- The expected signature type is not checked for transactions before T1. -/
def validateKeychainAuthorization (s : AccountKeychain)
    (account keyId : Address) (now : Nat) (expectedSigType : Option Nat) :
    Except TempoPrecompileError AuthorizedKey := do
  let key ← s.loadActiveKey account keyId now
  match expectedSigType with
  | none => .ok key
  | some sigType =>
    if key.signatureType.toU8 ≠ sigType then
      .error (.accountKeychain (.signatureTypeMismatch key.signatureType.toU8 sigType))
    else .ok key

/-- The root key counts as admin unless the account was migrated. -/
def isAdminKey (env : KeychainEnv) (s : AccountKeychain) (account keyId : Address) : Bool :=
  if keyId = account ∧ ¬(.t14 ≤ env.spec ∧ env.hasConfigCommitment account)
  then true
  else
    match s.loadActiveKey account keyId env.timestamp with
    | .ok key => key.isAdmin
    | .error _ => false

def ensureAdminCaller (env : KeychainEnv) (msgSender : Address) : Exec AccountKeychain Unit := do
  let s ← reads id
  require (¬(s.transactionKey ≠ 0 ∧ (¬.t6 ≤ env.spec ∨
    s.isAdminKey env msgSender s.transactionKey = false))) (.accountKeychain .unauthorizedCaller)
  require (.t2 ≤ env.spec → ¬(s.txOrigin = 0 ∨ s.txOrigin ≠ msgSender))
    (.accountKeychain .unauthorizedCaller)

def setTransactionKey (keyId : Address) : Exec AccountKeychain Unit :=
  updates fun s => { s with transactionKey := keyId }

def setTxOrigin (origin : Address) : Exec AccountKeychain Unit :=
  updates fun s => { s with txOrigin := origin }

/-! Authorization. -/

def applyLimit (env : KeychainEnv) (row : Address × Address)
    (limit : TokenLimit) : Exec AccountKeychain Unit :=
  if .t3 ≤ env.spec then do
    let max ← ofExcept (t3SpendingLimitCap limit.amount)
    updates fun s => s.putLimit row limit.token
      { remaining := limit.amount
        max := max
        period := limit.period
        periodEnd :=
          if limit.period = 0 then 0
          else saturatingAdd 64 env.timestamp limit.period }
  else
    updates fun s => s.putLimit row limit.token
      { s.spendingLimits row limit.token with remaining := limit.amount }

def applyKeyAuthorizationRestrictions (env : KeychainEnv)
    (account keyId : Address) (limits : List TokenLimit) (allowedCalls : Option (List CallScope)) :
    Exec AccountKeychain Unit := do
  limits.forM (applyLimit env (account, keyId))
  if .t3 ≤ env.spec then
    onScope (account, keyId) (KeyScope.replaceAllowedCalls env.toScopeEnv allowedCalls)
  else pure ()

/-- The scopes to store, after the checks of the restrictions themselves. -/
def checkRestrictions (env : KeychainEnv) (config : KeyRestrictions) :
    Except TempoPrecompileError (Option (List CallScope)) :=
  if .t3 ≤ env.spec then
    if config.enforceLimits ∧ ¬(config.limits.map TokenLimit.token).Nodup then
      .error (.accountKeychain .invalidSpendingLimit)
    else if config.allowAnyCalls then
      if .t5 ≤ env.spec ∧ config.allowedCalls ≠ [] then
        .error (.accountKeychain .invalidCallScope)
      else .ok none
    else .ok (some config.allowedCalls)
  else if ∃ limit ∈ config.limits, limit.period ≠ 0 then
    .error (.accountKeychain .invalidSpendingLimit)
  else if config.allowAnyCalls = false ∨ config.allowedCalls ≠ [] then
    .error (.accountKeychain .invalidCallScope)
  else .ok none

/-- The checks on the key itself, in the order of the source. -/
def checkNewKey (env : KeychainEnv) (msgSender keyId : Address)
    (signatureType : SignatureType) (config : KeyRestrictions)
    (isAdmin : Bool) : Exec AccountKeychain Unit := do
  let isDelegateGrant : Bool :=
    decide (signatureType = .configurableAccount ∧ .t14 ≤ env.spec)
  require (keyId ≠ 0) (.accountKeychain .zeroPublicKey)
  require (¬((isAdmin ∨ isDelegateGrant) ∧ keyId = msgSender)) (.accountKeychain .invalidKeyId)
  require (isDelegateGrant → ¬(env.validAccount keyId = false ∨ env.hasCode keyId))
    (.accountKeychain .invalidKeyId)
  require (.t0 ≤ env.spec → env.timestamp < config.expiry) (.accountKeychain .expiryInPast)
  let existing ← reads fun s => s.keys msgSender keyId
  require (existing.expiry = 0) (.accountKeychain .keyAlreadyExists)
  require (existing.isRevoked = false) (.accountKeychain .keyAlreadyRevoked)
  require (¬(signatureType = .configurableAccount ∧ ¬.t14 ≤ env.spec))
    (.accountKeychain .invalidSignatureType)

def ensureWitnessNotBurned (account : Address) (witness : B256) : Exec AccountKeychain Unit := do
  let s ← reads id
  require (s.keyAuthorizationWitnesses account witness = false)
    (.accountKeychain .keyAuthorizationWitnessAlreadyBurned)

def authorizeKeyInternal (env : KeychainEnv) (msgSender keyId : Address)
    (signatureType : SignatureType) (config : KeyRestrictions)
    (witness : Option B256) (isAdmin : Bool) : Exec AccountKeychain Unit := do
  ensureAdminCaller env msgSender
  checkNewKey env msgSender keyId signatureType config isAdmin
  let allowedCalls ← ofExcept (checkRestrictions env config)
  match witness with
  | some witness => ensureWitnessNotBurned msgSender witness
  | none => pure ()
  updates fun s => s.putKey msgSender keyId
    ⟨signatureType, config.expiry, config.enforceLimits, false, isAdmin⟩
  if isAdmin then pure ()
  else
    applyKeyAuthorizationRestrictions env msgSender keyId
      (if config.enforceLimits then config.limits else []) allowedCalls

def authorizeKey (env : KeychainEnv) (msgSender keyId : Address)
    (signatureType : SignatureType) (config : KeyRestrictions)
    (witness : Option B256) : Exec AccountKeychain Unit :=
  authorizeKeyInternal env msgSender keyId signatureType config witness false

def authorizeAdminKey (env : KeychainEnv) (msgSender keyId : Address)
    (signatureType : SignatureType) (witness : Option B256) : Exec AccountKeychain Unit :=
  authorizeKeyInternal env msgSender keyId signatureType
    { expiry := maxWord 64
      enforceLimits := false
      limits := []
      allowAnyCalls := true
      allowedCalls := [] } witness true

def burnKeyAuthorizationWitness (env : KeychainEnv) (msgSender : Address)
    (witness : B256) : Exec AccountKeychain Unit := do
  ensureAdminCaller env msgSender
  ensureWitnessNotBurned msgSender witness
  updates fun s => { s with
    keyAuthorizationWitnesses := update s.keyAuthorizationWitnesses
      msgSender (update (s.keyAuthorizationWitnesses msgSender) witness true) }

/-- The rows of limits and scopes stay behind and become unreachable. -/
def revokeKey (env : KeychainEnv) (msgSender keyId : Address) : Exec AccountKeychain Unit := do
  ensureAdminCaller env msgSender
  let key ← reads fun s => s.keys msgSender keyId
  require (key.expiry ≠ 0) (.accountKeychain .keyNotFound)
  updates fun s => s.putKey msgSender keyId { AuthorizedKey.blank with isRevoked := true }

/-- What changes of an existing key start with. -/
def loadManagedKey (env : KeychainEnv) (msgSender keyId : Address) :
    Exec AccountKeychain AuthorizedKey := do
  ensureAdminCaller env msgSender
  let s ← reads id
  let key ← ofExcept (s.loadActiveKey msgSender keyId env.timestamp)
  require (key.isAdmin = false) (.accountKeychain .invalidKeyId)
  pure key

def updateSpendingLimit (env : KeychainEnv) (msgSender keyId token : Address)
    (newLimit : Nat) : Exec AccountKeychain Unit := do
  let key ← loadManagedKey env msgSender keyId
  if key.enforceLimits then pure ()
  else
    updates fun s => s.putKey msgSender keyId { key with enforceLimits := true }
  if .t3 ≤ env.spec then do
    let max ← ofExcept (t3SpendingLimitCap newLimit)
    updates fun s => s.putLimit (msgSender, keyId) token
      { s.spendingLimits (msgSender, keyId) token with
        remaining := newLimit
        max := max }
  else
    updates fun s => s.putLimit (msgSender, keyId) token
      { s.spendingLimits (msgSender, keyId) token with remaining := newLimit }

def setAllowedCalls (env : KeychainEnv) (msgSender keyId : Address)
    (scopes : List CallScope) : Exec AccountKeychain Unit := do
  require (.t3 ≤ env.spec) (.accountKeychain .invalidCallScope)
  let _ ← loadManagedKey env msgSender keyId
  onScope (msgSender, keyId) (KeyScope.setAllowedCalls env.toScopeEnv scopes)

def removeAllowedCalls (env : KeychainEnv) (msgSender keyId target : Address) :
    Exec AccountKeychain Unit := do
  let _ ← loadManagedKey env msgSender keyId
  onScope (msgSender, keyId) (KeyScope.removeAllowedCalls target)

/-! Calls and views. -/

def validateCallScopeForTransaction (env : KeychainEnv)
    (account keyId : Address) (kind : TxKind) (input : List UInt8) : Exec AccountKeychain Unit :=
  if keyId = 0 ∨ ¬.t3 ≤ env.spec then pure ()
  else onScope (account, keyId) (KeyScope.validateCall kind input)

/-- Whether the key is scoped, and its scopes.  Keys that are not active
report that nothing is allowed. -/
def getAllowedCalls (env : KeychainEnv) (account keyId : Address) :
    Exec AccountKeychain (Bool × List CallScope) := do
  if keyId = 0 then pure (false, [])
  else do
    let key ← reads fun s => s.keys account keyId
    if key.expiry = 0 ∨ key.isRevoked ∨ key.expiry ≤ env.timestamp then
      pure (true, [])
    else do
      let isScoped ← reads fun s => (s.keyScopes (account, keyId)).isScoped
      if isScoped then do
        let scopes ← onScope (account, keyId) KeyScope.readScopes
        pure (true, scopes)
      else pure (false, [])

/-! Spending. -/

def verifyAndUpdateSpending (env : KeychainEnv) (account keyId token : Address) (amount : Nat) :
    Exec AccountKeychain Unit := do
  if keyId = 0 then pure ()
  else do
    let s ← reads id
    let key ← ofExcept (s.loadActiveKey account keyId env.timestamp)
    if key.enforceLimits then do
      let row ← ofExcept ((s.spendingLimits (account, keyId) token).charge
        env.spec env.timestamp amount)
      updates fun s => s.putLimit (account, keyId) token row
    else pure ()

/-- A key that is no longer active is skipped silently. -/
def refundSpendingLimit (env : KeychainEnv) (account token : Address)
    (amount : Nat) : Exec AccountKeychain Unit := do
  let s ← reads id
  if s.transactionKey = 0 ∨ account ≠ s.txOrigin then pure ()
  else
    match s.loadActiveKey account s.transactionKey env.timestamp with
    | .error _ => pure ()
    | .ok key =>
      if key.enforceLimits then
        updates fun s => s.putLimit (account, s.transactionKey) token
          ((s.spendingLimits (account, s.transactionKey) token).refund env.spec amount)
      else pure ()

/-- Limits apply to the origin of the transaction only. -/
def authorizeTransfer (env : KeychainEnv) (account token : Address)
    (amount : Nat) : Exec AccountKeychain Unit := do
  let s ← reads id
  if s.transactionKey = 0 ∨ account ≠ s.txOrigin then pure ()
  else verifyAndUpdateSpending env account s.transactionKey token amount

/-- Only an increase of the approval is charged. -/
def authorizeApprove (env : KeychainEnv) (account token : Address)
    (oldApproval newApproval : Nat) : Exec AccountKeychain Unit := do
  let s ← reads id
  if s.transactionKey = 0 ∨ account ≠ s.txOrigin then pure ()
  else if newApproval - oldApproval = 0 then pure ()
  else
    verifyAndUpdateSpending env account s.transactionKey token (newApproval - oldApproval)

end AccountKeychain

/-- What a transaction and the contracts it calls can ask of the keychain. -/
inductive KeychainCall where
  | setTransactionKey (keyId : Address)
  | setTxOrigin (origin : Address)
  | authorizeKey (msgSender keyId : Address) (signatureType : SignatureType)
      (config : KeyRestrictions) (witness : Option B256)
  | authorizeAdminKey (msgSender keyId : Address)
      (signatureType : SignatureType) (witness : Option B256)
  | burnKeyAuthorizationWitness (msgSender : Address) (witness : B256)
  | revokeKey (msgSender keyId : Address)
  | updateSpendingLimit (msgSender keyId token : Address) (newLimit : Nat)
  | setAllowedCalls (msgSender keyId : Address) (scopes : List CallScope)
  | removeAllowedCalls (msgSender keyId target : Address)
  | verifyAndUpdateSpending (account keyId token : Address) (amount : Nat)
  | refundSpendingLimit (account token : Address) (amount : Nat)
  | authorizeTransfer (account token : Address) (amount : Nat)
  | authorizeApprove (account token : Address) (oldApproval newApproval : Nat)

namespace KeychainCall

def exec (env : KeychainEnv) : KeychainCall → Exec AccountKeychain Unit
  | setTransactionKey keyId => AccountKeychain.setTransactionKey keyId
  | setTxOrigin origin => AccountKeychain.setTxOrigin origin
  | authorizeKey msgSender keyId signatureType config witness =>
    AccountKeychain.authorizeKey env msgSender keyId signatureType config witness
  | authorizeAdminKey msgSender keyId signatureType witness =>
    AccountKeychain.authorizeAdminKey env msgSender keyId signatureType witness
  | burnKeyAuthorizationWitness msgSender witness =>
    AccountKeychain.burnKeyAuthorizationWitness env msgSender witness
  | revokeKey msgSender keyId => AccountKeychain.revokeKey env msgSender keyId
  | updateSpendingLimit msgSender keyId token newLimit =>
    AccountKeychain.updateSpendingLimit env msgSender keyId token newLimit
  | setAllowedCalls msgSender keyId scopes =>
    AccountKeychain.setAllowedCalls env msgSender keyId scopes
  | removeAllowedCalls msgSender keyId target =>
    AccountKeychain.removeAllowedCalls env msgSender keyId target
  | verifyAndUpdateSpending account keyId token amount =>
    AccountKeychain.verifyAndUpdateSpending env account keyId token amount
  | refundSpendingLimit account token amount =>
    AccountKeychain.refundSpendingLimit env account token amount
  | authorizeTransfer account token amount =>
    AccountKeychain.authorizeTransfer env account token amount
  | authorizeApprove account token oldApproval newApproval =>
    AccountKeychain.authorizeApprove env account token oldApproval newApproval

/-- The state after a call; one that fails is reverted. -/
def apply (env : KeychainEnv) (c : KeychainCall) (s : AccountKeychain) : AccountKeychain :=
  match (c.exec env).run s with
  | .ok _ s' => s'
  | .error _ _ => s

/-- The state after a sequence of calls, each with its block. -/
def replay (s : AccountKeychain) (calls : List (KeychainEnv × KeychainCall)) : AccountKeychain :=
  calls.foldl (fun s c => c.2.apply c.1 s) s

end KeychainCall

end Tempo
