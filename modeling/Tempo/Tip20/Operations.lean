/-
The operations of a TIP-20 token: transfers, mints, burns, fee movements,
guarded inbound funds, allowances, roles and rewards, each under the fork and
environment of its call.  Events are not modelled.
-/
import Tempo.Tip20.Rewards

namespace Tempo

open Function

/-- Who may recover blocked inbound funds. -/
inductive RecoveryMode where
  | originator
  | receiver
  | thirdParty
  deriving DecidableEq, Repr

namespace RecoveryMode

/-- The account with effective ownership of the blocked funds. -/
def policySubject (mode : RecoveryMode) (originator receiver : Address) : Address :=
  match mode with
  | .originator => originator
  | .receiver | .thirdParty => receiver

def isReroute (mode : RecoveryMode) (to' receiver : Address) : Bool :=
  match mode with
  | .originator => true
  | .receiver | .thirdParty => to' != receiver

def spendingAccount (mode : RecoveryMode) (recoveryAuthority : Address) : Option Address :=
  match mode with
  | .originator | .receiver => some recoveryAuthority
  | .thirdParty => none

end RecoveryMode

/-- Precompiles that may pull tokens without an allowance. -/
def implicitApprovalList : List Address :=
  [tipFeeManagerAddress, stablecoinDexAddress, tip20ChannelReserveAddress]

def isImplicitlyApproved (addr : Address) (hardfork : TempoHardfork) : Bool :=
  decide (.t5 ≤ hardfork) && implicitApprovalList.contains addr

/-- Custody addresses protected from privileged burns, by activation. -/
def protectedAddresses : List (TempoHardfork × List Address) :=
  [(.genesis, [tipFeeManagerAddress, stablecoinDexAddress]), (.t5, [tip20ChannelReserveAddress]),
   (.t6, [receivePolicyGuardAddress])]

def zonePortalPrefix : BitVec 96 := 0x5AD000000000000000000000#96

namespace Recipient

def direct (addr : Address) : Recipient := ⟨addr, none⟩

def originalAddress (r : Recipient) : Address :=
  r.virtualAddr.getD r.target

def validate (r : Recipient) : Exec TokenCtx Unit :=
  require (¬(r.target.isZero ∨ r.target.isTip20)) (.tip20 .invalidRecipient)

end Recipient

namespace Tip20

variable (env : Env) (self : Address)

/-- The account credited for an addressed recipient. -/
def resolveRecipient (to' : Address) : Exec TokenCtx Address :=
  if .t3 ≤ env.spec then
    match to'.decodeVirtual with
    | none => pure to'
    | some (masterId, _) => do
      let master ← ofExcept (env.getMaster masterId)
      orFail master (.addrRegistry .virtualAddressUnregistered)
  else pure to'

def resolve (addr : Address) : Exec TokenCtx Recipient := do
  let effective ← resolveRecipient env addr
  pure (if effective = addr then .direct addr else ⟨effective, some addr⟩)

def transferPolicyId : Exec TokenCtx Nat :=
  if .t9 ≤ env.spec then do
    let registered ← ofExcept (env.registeredTokenTransferPolicyId self)
    match registered with
    | some policyId => pure policyId
    | none => reads fun s => s.token.transferPolicyId
  else reads fun s => s.token.transferPolicyId

/-- Authorization by the token's TIP-403 policy; from T2 on the recipient is
only looked up when the sender passes. -/
def isTransferAuthorized (from' to' : Address) : Exec TokenCtx Bool := do
  let policyId ← transferPolicyId env self
  let senderAuth ← ofExcept (env.isAuthorizedAs policyId from' (.transferOr env.spec .sender))
  if .t2 ≤ env.spec ∧ senderAuth = false then pure false
  else
    let recipientAuth ← ofExcept (env.isAuthorizedAs policyId to' (.transferOr env.spec .recipient))
    pure (senderAuth && recipientAuth)

def ensureTransferAuthorized (from' to' : Address) : Exec TokenCtx Unit := do
  let authorized ← isTransferAuthorized env self from' to'
  require authorized (.tip20 .policyForbids)

def ensureAuthorizedAs (user : Address) (role : AuthRole) : Exec TokenCtx Unit := do
  let policyId ← transferPolicyId env self
  let authorized ← ofExcept (env.isAuthorizedAs policyId user role)
  require authorized (.tip20 .policyForbids)

/-- Fails when the receiver's own policy would block the inbound. -/
def ensureReceivePolicyAuthorized (sender receiver : Address) : Exec TokenCtx Unit := do
  let blocked ← ofExcept (env.checkReceivePolicy self sender receiver)
  require (blocked = none) (.tip20 .policyForbids)

def checkAndUpdateSpendingLimit (from' : Address) (amount : Nat) : Exec TokenCtx Unit :=
  ofExcept (env.authorizeTransfer from' self amount)

/-- Debits `from'` and credits the recipient's target; the zero target of a
burn is not credited.  Before T8 the sender's balance is read ahead of the
reward hook and written back. -/
def innerTransfer (from' : Address) (to' : Recipient) (amount : Nat) : Exec TokenCtx Unit := do
  if .t8 ≤ env.spec then
    handleRewardsOnTransfer env from' to'.target amount
    decrementBalance self from' amount
  else
    let fromBalance ← getBalance from'
    require (amount ≤ fromBalance) (.tip20 (.insufficientBalance fromBalance amount self))
    handleRewardsOnTransfer env from' to'.target amount
    let newFromBalance ← orFail (checkedSub fromBalance amount) .underOverflow
    setBalance from' newFromBalance
  if to'.target ≠ 0 then incrementBalance to'.target amount else pure ()

def innerMint (to' : Recipient) (totalSupply amount : Nat) : Exec TokenCtx Unit := do
  let newSupply ← orFail (checkedAdd 256 totalSupply amount) .underOverflow
  let supplyCap ← reads fun s => s.token.supplyCap
  require (newSupply ≤ supplyCap) (.tip20 .supplyCapExceeded)
  handleRewardsOnMint env to'.target amount
  setTotalSupply newSupply
  incrementBalance to'.target amount

/-- Takes a burned amount out of the total supply. -/
def reduceTotalSupply (amount : Nat) : Exec TokenCtx Unit := do
  let supply ← totalSupply
  let newSupply ← orFail (checkedSub supply amount)
    (.tip20 (.insufficientBalance supply amount self))
  setTotalSupply newSupply

/-- Allocates the next nonzero receipt nonce. -/
def nextReceiptNonce : Exec TokenCtx Nat := do
  let stored ← reads fun s => s.guard.nonce
  let nonce := max stored 1
  let next ← orFail (checkedAdd 64 nonce 1) .underOverflow
  updates fun s => { s with guard.nonce := next }
  pure nonce

/-- Records blocked inbound funds under a fresh receipt. -/
def storeBlocked (originator : Address) (to' : Recipient)
    (recoveryAddress : Address) (amount : Nat) (blockedReason : BlockedReason)
    (kind : InboundKind) (memo : B256) : Exec TokenCtx Unit := do
  require (blockedReason ≠ .none) (.receivePolicyGuard .invalidReceipt)
  let blockedNonce ← nextReceiptNonce
  let receipt : ClaimReceipt :=
    { version := 1
      token := self
      recoveryAuthority := recoveryAddress
      originator := originator
      recipient := to'.originalAddress
      blockedAt := min env.timestamp (maxWord 64)
      blockedNonce := blockedNonce
      blockedReason := blockedReason
      kind := kind
      memo := memo }
  updates fun s => { s with
    guard.balances := update s.guard.balances receipt amount }

/-- Applies the receiver's policy; blocked funds are moved or minted to the
guard instead, and the result is `true`. -/
def validateInboundOrBlock (originator : Address) (to' : Recipient)
    (amount : Nat) (mintTotalSupply : Option Nat) (memo : B256) : Exec TokenCtx Bool := do
  if .t6 ≤ env.spec then
    require (to'.target ≠ receivePolicyGuardAddress) (.receivePolicyGuard .addressReserved)
    let blocked ← ofExcept (env.checkReceivePolicy self originator to'.target)
    match blocked with
    | none => pure false
    | some (reason, recovery) => do
      let guard := Recipient.direct receivePolicyGuardAddress
      match mintTotalSupply with
      | some supply => do
        innerMint env guard supply amount
        storeBlocked env self originator to' recovery amount reason .mint memo
      | none => do
        innerTransfer env self originator guard amount
        storeBlocked env self originator to' recovery amount reason .transfer memo
      pure true
  else pure false

def consumeAllowance (owner spender : Address) (amount : Nat) : Exec TokenCtx Unit := do
  let allowed ← getAllowance owner spender
  require (amount ≤ allowed) (.tip20 .insufficientAllowance)
  if allowed ≠ maxWord 256 then
    let newAllowance ← orFail (checkedSub allowed amount) (.tip20 .insufficientAllowance)
    setAllowance owner spender newAllowance
  else pure ()

/-- Everything an ordinary transfer checks; `none` means the funds were
blocked and the transfer is already complete. -/
def validateTransfer (spender : Option Address) (from' to' : Address)
    (amount : Nat) (memo : B256) : Exec TokenCtx (Option Recipient) := do
  let to' ← resolve env to'
  checkNotPaused
  to'.validate
  ensureTransferAuthorized env self from' to'.target
  match spender with
  | some spender => consumeAllowance from' spender amount
  | none => checkAndUpdateSpendingLimit env self from' amount
  let blocked ← validateInboundOrBlock env self from' to' amount none memo
  pure (if blocked then none else some to')

def validateMint (msgSender to' : Address) (amount : Nat) (memo : B256)
    (recipientRole : AuthRole) : Exec TokenCtx (Option (Nat × Recipient)) := do
  let to' ← resolve env to'
  checkRole msgSender issuerRole
  let supply ← totalSupply
  if .t3 ≤ env.spec then do checkNotPaused; to'.validate else pure ()
  ensureAuthorizedAs env self to'.target recipientRole
  let blocked ← validateInboundOrBlock env self msgSender to' amount (some supply) memo
  pure (if blocked then none else some (supply, to'))

/-- The transfer that follows a successful validation. -/
def performTransfer (from' : Address) (amount : Nat) : Option Recipient → Exec TokenCtx Bool
  | none => pure true
  | some to' => do
    innerTransfer env self from' to' amount
    pure true

def transferWithMemo (msgSender to' : Address) (amount : Nat) (memo : B256) :
    Exec TokenCtx Bool := do
  let target ← validateTransfer env self none msgSender to' amount memo
  performTransfer env self msgSender amount target

def transfer (msgSender to' : Address) (amount : Nat) : Exec TokenCtx Bool :=
  transferWithMemo env self msgSender to' amount 0

def transferFromWithMemo (msgSender from' to' : Address) (amount : Nat)
    (memo : B256) : Exec TokenCtx Bool := do
  let target ← validateTransfer env self (some msgSender) from' to' amount memo
  performTransfer env self from' amount target

def transferFrom (msgSender from' to' : Address) (amount : Nat) : Exec TokenCtx Bool :=
  transferFromWithMemo env self msgSender from' to' amount 0

/-- Pulls from `from'` to a listed precompile without an allowance. -/
def systemTransferFrom (caller from' : Address) (amount : Nat) : Exec TokenCtx Bool := do
  require (¬(.t5 ≤ env.spec ∧ ¬isImplicitlyApproved caller env.spec)) (.tip20 .unauthorized)
  let target ← validateTransfer env self none from' caller amount 0
  performTransfer env self from' amount target

/-- Channel custody movement; it reverts where an ordinary transfer would be
blocked. -/
def channelReserveTransfer (from' : Address) (to' : Recipient) (amount : Nat)
    (receivePolicySender : Address) : Exec TokenCtx Unit := do
  require (¬(from' ≠ tip20ChannelReserveAddress ∧
    to'.originalAddress ≠ tip20ChannelReserveAddress)) (.tip20 .unauthorized)
  checkNotPaused
  to'.validate
  checkAndUpdateSpendingLimit env self from' amount
  require (to'.target ≠ receivePolicyGuardAddress) (.receivePolicyGuard .addressReserved)
  ensureReceivePolicyAuthorized env self receivePolicySender to'.target
  innerTransfer env self from' to' amount

def mintWithRole (msgSender to' : Address) (amount : Nat) (memo : B256)
    (recipientRole : AuthRole) : Exec TokenCtx Unit := do
  let target ← validateMint env self msgSender to' amount memo recipientRole
  match target with
  | none => pure ()
  | some (supply, to') => innerMint env to' supply amount

def mintWithMemo (msgSender to' : Address) (amount : Nat) (memo : B256) : Exec TokenCtx Unit :=
  mintWithRole env self msgSender to' amount memo (.transferOr env.spec .mintRecipient)

def mint (msgSender to' : Address) (amount : Nat) : Exec TokenCtx Unit :=
  mintWithRole env self msgSender to' amount 0 (.transferOr env.spec .mintRecipient)

/-- Burns from the caller; memo and plain burns differ in events only. -/
def innerBurn (msgSender : Address) (amount : Nat) : Exec TokenCtx Unit := do
  if .t3 ≤ env.spec then checkNotPaused else pure ()
  checkRole msgSender issuerRole
  innerTransfer env self msgSender (.direct 0) amount
  reduceTotalSupply self amount

def burn (msgSender : Address) (amount : Nat) : Exec TokenCtx Unit :=
  innerBurn env self msgSender amount

def burnWithMemo (msgSender : Address) (amount : Nat) (_memo : B256) : Exec TokenCtx Unit :=
  innerBurn env self msgSender amount

/-- Rejects pooled custody balances whose destruction would leave outstanding
claims unbacked. -/
def checkBurnAddress (from' : Address) : Exec TokenCtx Unit :=
  require (¬((∃ entry ∈ protectedAddresses, entry.1 ≤ env.spec ∧ from' ∈ entry.2) ∨
    (.t5 ≤ env.spec ∧ from' = self) ∨
    (.t12 ≤ env.spec ∧ from'.word.extractLsb' 64 96 = zonePortalPrefix))) (.tip20 .protectedAddress)

def burnBlocked (msgSender owner : Address) (amount : Nat)
    (checkProtected : Bool) : Exec TokenCtx Unit := do
  if .t3 ≤ env.spec then checkNotPaused else pure ()
  checkRole msgSender burnBlockedRole
  if checkProtected then checkBurnAddress env self owner else pure ()
  let policyId ← transferPolicyId env self
  let authorized ← ofExcept (env.isAuthorizedAs policyId owner (.transferOr env.spec .sender))
  require (authorized = false) (.tip20 .policyForbids)
  let burnFrom := if checkProtected then owner else receivePolicyGuardAddress
  innerTransfer env self burnFrom (.direct 0) amount
  reduceTotalSupply self amount

def burnAt (msgSender from' : Address) (amount : Nat) : Exec TokenCtx Unit := do
  checkNotPaused
  checkRole msgSender burnAtRole
  checkBurnAddress env self from'
  checkAndUpdateSpendingLimit env self from' amount
  innerTransfer env self from' (.direct 0) amount
  reduceTotalSupply self amount

/-- Releases guarded funds; reroutes are checked like fresh transfers. -/
def releaseBlockedFunds (originator receiver to' : Address) (amount : Nat)
    (recoveryMode : RecoveryMode) (recoveryAuth : Address) : Exec TokenCtx Unit := do
  checkNotPaused
  let destination ← resolve env to'
  destination.validate
  if recoveryMode.isReroute to' receiver then
    let policySubject := recoveryMode.policySubject originator receiver
    ensureTransferAuthorized env self policySubject destination.target
    ensureReceivePolicyAuthorized env self policySubject destination.target
    match recoveryMode.spendingAccount recoveryAuth with
    | some addr => checkAndUpdateSpendingLimit env self addr amount
    | none => pure ()
  else
    ensureAuthorizedAs env self destination.target (.transferOr env.spec .recipient)
  innerTransfer env self receivePolicyGuardAddress destination amount

def transferFeePreTx (from' : Address) (amount : Nat) : Exec TokenCtx Unit := do
  checkNotPaused
  checkAndUpdateSpendingLimit env self from' amount
  let fromRewardRecipient ← updateRewards env from'
  if fromRewardRecipient ≠ 0 then decreaseOptedInSupply amount else pure ()
  decrementBalance self from' amount
  incrementBalance tipFeeManagerAddress amount

def transferFeePostTx (to' : Address) (refund _actualSpending : Nat) : Exec TokenCtx Unit :=
  if refund = 0 then pure ()
  else do
    if .t1c ≤ env.spec then
      ofExcept (env.refundSpendingLimit to' self refund)
    else pure ()
    let toRewardRecipient ← updateRewards env to'
    if toRewardRecipient ≠ 0 then increaseOptedInSupply refund else pure ()
    decrementBalance self tipFeeManagerAddress refund
    incrementBalance to' refund

def setSupplyCap (msgSender : Address) (newSupplyCap : Nat) : Exec TokenCtx Unit := do
  checkRole msgSender defaultAdminRole
  let supply ← totalSupply
  require (supply ≤ newSupplyCap) (.tip20 .invalidSupplyCap)
  require (newSupplyCap ≤ maxWord 128) (.tip20 .supplyCapExceeded)
  updates fun s => { s with token.supplyCap := newSupplyCap }

/-! Allowances, pausing and roles. -/

def approve (msgSender spender : Address) (amount : Nat) : Exec TokenCtx Bool := do
  let current ← getAllowance msgSender spender
  ofExcept (env.authorizeApprove msgSender self current amount)
  setAllowance msgSender spender amount
  pure true

/-- Sets an allowance by signature; `signature` stands for the `v, r, s`
values, and the recovery of its signer is the environment's. -/
def permit (owner spender : Address) (value deadline : Nat)
    (signature : B256) : Exec TokenCtx Unit := do
  require (env.timestamp ≤ deadline) (.tip20 .permitExpired)
  let nonce ← reads fun s => s.token.permitNonces owner
  let recovered ← ofExcept (env.recoverPermitSigner owner spender value nonce deadline signature)
  let signer ← orFail recovered (.tip20 .invalidSignature)
  require (signer = owner) (.tip20 .invalidSignature)
  let retired ← ofExcept (env.isRetiredRoot owner)
  require (retired = false) (.tip20 (.rootKeyRetired owner))
  let next ← orFail (checkedAdd 256 nonce 1) .underOverflow
  updates fun s => { s with
    token.permitNonces := update s.token.permitNonces owner next }
  setAllowance owner spender value

def setPaused (paused : Bool) : Exec TokenCtx Unit :=
  updates fun s => { s with token.paused := paused }

def pause (msgSender : Address) : Exec TokenCtx Unit := do
  checkRole msgSender pauseRole
  setPaused true

def unpause (msgSender : Address) : Exec TokenCtx Unit := do
  checkRole msgSender unpauseRole
  setPaused false

def writeRole (account : Address) (role : B256) (held : Bool) : Exec TokenCtx Unit :=
  updates fun s => { s with
    token.roles := update s.token.roles account (update (s.token.roles account) role held) }

def setRoleAdminInternal (role adminRole : B256) : Exec TokenCtx Unit :=
  updates fun s => { s with
    token.roleAdmins := update s.token.roleAdmins role adminRole }

def grantRole (msgSender account : Address) (role : B256) : Exec TokenCtx Unit := do
  let adminRole ← reads fun s => s.token.roleAdmins role
  checkRole msgSender adminRole
  writeRole account role true

def revokeRole (msgSender account : Address) (role : B256) : Exec TokenCtx Unit := do
  let adminRole ← reads fun s => s.token.roleAdmins role
  checkRole msgSender adminRole
  writeRole account role false

def renounceRole (msgSender : Address) (role : B256) : Exec TokenCtx Unit := do
  checkRole msgSender role
  writeRole msgSender role false

def setRoleAdmin (msgSender : Address) (role adminRole : B256) : Exec TokenCtx Unit := do
  let currentAdminRole ← reads fun s => s.token.roleAdmins role
  checkRole msgSender currentAdminRole
  setRoleAdminInternal role adminRole

/-- One-time setup of a token address by the factory. -/
def initializeToken (currency : String) (quoteToken admin : Address) : Exec TokenCtx Unit := do
  updates fun s => { s with
    token.deployed := true
    token.currency := currency
    token.quoteToken := quoteToken
    token.nextQuoteToken := quoteToken
    token.supplyCap := maxWord 128 }
  -- from T9 on the policy binding lives in the TIP-403 registry
  if .t9 ≤ env.spec then pure ()
  else updates fun s => { s with token.transferPolicyId := allowAllPolicyId }
  setRoleAdminInternal ungrantableRole ungrantableRole
  writeRole admin defaultAdminRole true

/-! Reward operations, retired at T7 except for claims. -/

def distributeReward (msgSender : Address) (amount : Nat) : Exec TokenCtx Unit :=
  if .t7 ≤ env.spec then pure ()
  else do
    checkNotPaused
    require (amount ≠ 0) (.tip20 .invalidAmount)
    ensureTransferAuthorized env self msgSender self
    checkAndUpdateSpendingLimit env self msgSender amount
    innerTransfer env self msgSender (.direct self) amount
    let optedInSupply ← getOptedInSupply
    require (optedInSupply ≠ 0) (.tip20 .noOptedInSupply)
    let deltaRpt ← orFail ((checkedMul 256 amount accPrecision).bind
      fun v => checkedDiv v optedInSupply) .underOverflow
    let currentRpt ← reads fun s => s.token.globalRewardPerToken
    let newRpt ← orFail (checkedAdd 256 currentRpt deltaRpt) .underOverflow
    updates fun s => { s with token.globalRewardPerToken := newRpt }

def setRewardRecipient (msgSender recipient : Address) : Exec TokenCtx Unit :=
  if .t7 ≤ env.spec then pure ()
  else do
    checkNotPaused
    require (¬(.t3 ≤ env.spec ∧ recipient.isVirtual)) (.tip20 .invalidRecipient)
    if recipient ≠ 0 then ensureTransferAuthorized env self msgSender recipient
    else pure ()
    let fromDelegate ← updateRewards env msgSender
    let holderBalance ← getBalance msgSender
    if fromDelegate ≠ 0 then
      if recipient = 0 then decreaseOptedInSupply holderBalance else pure ()
    else if recipient ≠ 0 then increaseOptedInSupply holderBalance
    else pure ()
    let info ← getUserRewardInfo msgSender
    setUserRewardInfo msgSender { info with rewardRecipient := recipient }

/-- Pays the accrued reward balance, or what the contract holds if less. -/
def claimRewards (msgSender : Address) : Exec TokenCtx Nat := do
  checkNotPaused
  ensureTransferAuthorized env self self msgSender
  let rewardRecipient ← updateRewards env msgSender
  let info ← getUserRewardInfo msgSender
  let contractBalance ← getBalance self
  let maxAmount := min info.rewardBalance contractBalance
  let remaining ← orFail (checkedSub info.rewardBalance maxAmount) .underOverflow
  setUserRewardInfo msgSender { info with rewardBalance := remaining }
  if maxAmount = 0 then pure 0
  else
    let newContractBalance ← orFail (checkedSub contractBalance maxAmount) .underOverflow
    setBalance self newContractBalance
    let senderBalance ← getBalance msgSender
    let recipientBalance ← orFail (checkedAdd 256 senderBalance maxAmount) .underOverflow
    setBalance msgSender recipientBalance
    if rewardRecipient ≠ 0 then increaseOptedInSupply maxAmount else pure ()
    pure maxAmount

/-! The checks write nothing. -/

theorem checkNotPaused_readOnly : ReadOnly checkNotPaused := .bind (.reads _) fun _ => .require _ _

theorem checkRole_readOnly (account : Address) (role : B256) :
    ReadOnly (checkRole account role) := .bind (.reads _) fun _ => .require _ _

theorem validate_readOnly (r : Recipient) : ReadOnly r.validate := .require _ _

theorem resolveRecipient_readOnly (to' : Address) : ReadOnly (resolveRecipient env to') := by
  refine ReadOnly.ite ?_ (.pure _)
  split
  · exact .pure _
  · exact .bind (.ofExcept _) fun _ => .orFail _ _

theorem resolve_readOnly (addr : Address) : ReadOnly (resolve env addr) :=
  (resolveRecipient_readOnly env addr).bind fun _ => .pure _

theorem transferPolicyId_readOnly : ReadOnly (transferPolicyId env self) := by
  refine ReadOnly.ite (.bind (.ofExcept _) fun r => ?_) (.reads _)
  cases r with
  | some policyId => exact .pure _
  | none => exact .reads _

theorem ensureTransferAuthorized_readOnly (from' to' : Address) :
    ReadOnly (ensureTransferAuthorized env self from' to') := by
  refine ReadOnly.bind ?_ fun _ => .require _ _
  refine (transferPolicyId_readOnly env self).bind fun _ => ?_
  refine .bind (.ofExcept _) fun _ => ?_
  exact ReadOnly.ite (.pure _) (.bind (.ofExcept _) fun _ => .pure _)

theorem ensureAuthorizedAs_readOnly (user : Address) (role : AuthRole) :
    ReadOnly (ensureAuthorizedAs env self user role) :=
  (transferPolicyId_readOnly env self).bind fun _ =>
    .bind (.ofExcept _) fun _ => .require _ _

theorem ensureReceivePolicyAuthorized_readOnly (sender receiver : Address) :
    ReadOnly (ensureReceivePolicyAuthorized env self sender receiver) :=
  .bind (.ofExcept _) fun _ => .require _ _

theorem checkAndUpdateSpendingLimit_readOnly (from' : Address) (amount : Nat) :
    ReadOnly (checkAndUpdateSpendingLimit env self from' amount) := .ofExcept _

end Tip20

end Tempo
