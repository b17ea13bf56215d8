/-
Payment channels over TIP-20 deposits: a payer locks a deposit, the payee
settles signed cumulative vouchers against it, and what is left goes back to
the payer when the channel is closed or withdrawn.  A channel is identified by
the hash of its descriptor, which is modelled by the descriptor itself.
-/
import Tempo.StorageCredits.Accounting
import Tempo.Tip20.World

namespace Tempo

structure ChannelDescriptor where
  payer : Address
  payee : Address
  operator : Address
  token : Address
  salt : B256
  authorizedSigner : Address
  expiringNonceHash : B256
  deriving DecidableEq

/-- One storage slot; the deposit marks that the channel exists. -/
structure PackedChannelState where
  settled : Nat
  deposit : Nat
  closeRequestedAt : Nat
  usesLogicalReceivePolicySender : Bool
  deriving DecidableEq

namespace PackedChannelState

def blank : PackedChannelState := ⟨0, 0, 0, false⟩

/-- The sender presented to the payee's receive policy. -/
def receivePolicySender (state : PackedChannelState) (payer : Address) : Address :=
  if state.usesLogicalReceivePolicySender then payer
  else tip20ChannelReserveAddress

end PackedChannelState

/-- Storage of the reserve; the last two fields are transient. -/
structure ChannelReserve where
  channelStates : ChannelDescriptor → PackedChannelState
  channelStorageCredits : Address → Nat
  openedThisTx : ChannelDescriptor → Bool
  channelOpenContextHash : B256

/-- The reserve with its storage credits, and the tokens it holds. -/
structure ReserveWorld where
  tokens : TokenWorld
  reserve : ChannelReserve
  credits : CreditState

instance : HasCredits ReserveWorld where
  credits w := w.credits
  putCredits w credits := { w with credits }
  counters w := w.reserve.channelStorageCredits
  putCounters w counters := { w with reserve.channelStorageCredits := counters }
  credits_putCredits _ _ := rfl
  counters_putCredits _ _ := rfl
  counters_putCounters _ _ := rfl
  credits_putCounters _ _ := rfl

/-- Signatures are recovered by the environment; `none` is a failure. -/
structure ReserveEnv extends Env where
  recoverSigner : ChannelDescriptor → Nat → B256 → Option Address

/-- Seconds between a close request and the withdrawal. -/
def closeGracePeriod : Nat := 15 * 60

namespace ReserveWorld

variable {α : Type} (spec : TempoHardfork)

def onTokens (m : Exec TokenWorld α) : Exec ReserveWorld α :=
  focus (fun w => w.tokens) (fun w tokens => { w with tokens }) m

/-- An operation of a token whose address was checked before. -/
def onTip20 (token : Address) (m : Exec TokenCtx α) : Exec ReserveWorld α :=
  onTokens (onToken token m)

def query (f : ChannelReserve → α) : Exec ReserveWorld α :=
  reads fun w => f w.reserve

/-- A write of the packed slot of a channel. -/
def writeState (channelId : ChannelDescriptor) (state : PackedChannelState) :
    Exec ReserveWorld Unit :=
  updates fun w =>
    { w with
      reserve.channelStates := Function.update w.reserve.channelStates channelId state
      credits := w.credits.sstore spec
        (w.reserve.channelStates channelId = .blank) (state = .blank) }

end ReserveWorld

namespace ChannelReserve

open ReserveWorld StorageCredits

variable (env : ReserveEnv)

/-! Storage credits of payers. -/

def creditChannelStorageSlots (payer : Address) (slots : Nat) : Exec ReserveWorld Unit :=
  if slots = 0 then pure ()
  else creditStorageSlots env.spec "channel" payer slots

def deleteChannelStateAndCreditPayer (channelId : ChannelDescriptor)
    (payer : Address) : Exec ReserveWorld Unit := do
  let (_, credits) ← trackMintedCredits env.spec (writeState env.spec channelId .blank)
  creditChannelStorageSlots env payer credits

/-- Creates the slot of a channel, with a credit of the payer if there is
one. -/
def writeChannelStateSpendingCredit (payer : Address)
    (channelId : ChannelDescriptor) (state : PackedChannelState) : Exec ReserveWorld Unit := do
  if .t7 ≤ env.spec then do
    let current ← query fun r => r.channelStorageCredits payer
    if current = 0 then writeState env.spec channelId state
    else do
      writeCounter env.spec payer 0
      let (_, delta) ← withBudget env.spec current (writeState env.spec channelId state)
      let spentCredits : Nat := (-delta).toNat
      require (spentCredits = 1)
        (.fatal s!"channel storage credit spend mismatch: reserved 1, spent {spentCredits}")
      creditChannelStorageSlots env payer (current - spentCredits)
  else writeState env.spec channelId state

/-! Checks. -/

def now : Nat := min env.timestamp (maxWord 64)

def nowU32 : Nat := min env.timestamp (maxWord 32)

def expect {α : Type} (o : Option α) (msg : String) : Exec ReserveWorld α :=
  orFail o (.aborted msg)

def ensurePayeeOrOperator (msgSender : Address)
    (descriptor : ChannelDescriptor) : Exec ReserveWorld Unit :=
  require (¬(msgSender ≠ descriptor.payee ∧
    (descriptor.operator = 0 ∨ msgSender ≠ descriptor.operator)))
    (.tip20ChannelReserve .notPayeeOrOperator)

def loadExistingState (channelId : ChannelDescriptor) : Exec ReserveWorld PackedChannelState := do
  let state ← query fun r => r.channelStates channelId
  require (state.deposit ≠ 0) (.tip20ChannelReserve .channelNotFound)
  pure state

def expectedSigner (descriptor : ChannelDescriptor) : Address :=
  if descriptor.authorizedSigner = 0 then descriptor.payer
  else descriptor.authorizedSigner

def validateVoucher (descriptor : ChannelDescriptor) (cumulativeAmount : Nat)
    (signature : B256) : Exec ReserveWorld Unit := do
  let signer ← orFail (env.recoverSigner descriptor cumulativeAmount signature)
    (.tip20ChannelReserve .invalidSignature)
  require (signer = expectedSigner descriptor) (.tip20ChannelReserve .invalidSignature)
  let retired ← ofExcept (env.isRetiredRoot signer)
  require (retired = false) (.tip20ChannelReserve (.rootKeyRetired signer))

/-- Whether the channel id can still be opened in this transaction. -/
def checkOpen (channelId : ChannelDescriptor) : Exec ReserveWorld Unit := do
  let state ← query fun r => r.channelStates channelId
  let opened ← query fun r => r.openedThisTx channelId
  require (¬(state.deposit ≠ 0 ∨ opened = true)) (.tip20ChannelReserve .channelAlreadyExists)

/-! Movements of the deposit. -/

/-- Pulls funds of the payer into the reserve; from T12 on the payee must be
able to receive from the sender that captures will present. -/
def pullDeposit (token msgSender payee policySender : Address)
    (amount : Nat) : Exec ReserveWorld Unit :=
  onTip20 token (if .t12 ≤ env.spec then do
      let payee ← Tip20.resolve env.toEnv payee
      Tip20.ensureTransferAuthorized env.toEnv token msgSender payee.target
      Tip20.ensureReceivePolicyAuthorized env.toEnv token policySender payee.target
      Tip20.channelReserveTransfer env.toEnv token msgSender
        (.direct tip20ChannelReserveAddress) amount msgSender
    else do
      let payee ← Tip20.resolve env.toEnv payee
      Tip20.ensureAuthorizedAs env.toEnv token payee.target .recipient
      let _ ← Tip20.systemTransferFrom env.toEnv token tip20ChannelReserveAddress msgSender amount)

/-- A capture for the payee, from T12 on. -/
def deliverCapture (token payer payee : Address) (state : PackedChannelState)
    (amount : Nat) : Exec ReserveWorld Unit :=
  onTip20 token do
    let payee ← Tip20.resolve env.toEnv payee
    Tip20.ensureTransferAuthorized env.toEnv token payer payee.target
    Tip20.channelReserveTransfer env.toEnv token tip20ChannelReserveAddress
      payee amount (state.receivePolicySender payer)

/-- A refund for the payer, from T12 on. -/
def deliverRefund (token payer : Address) (amount : Nat) : Exec ReserveWorld Unit :=
  onTip20 token do
    let payer ← Tip20.resolve env.toEnv payer
    Tip20.channelReserveTransfer env.toEnv token tip20ChannelReserveAddress
      payer amount tip20ChannelReserveAddress

/-- A payout before T12 is an ordinary transfer. -/
def payOut (token to' : Address) (amount : Nat) : Exec ReserveWorld Unit :=
  onTip20 token do
    let _ ← Tip20.transfer env.toEnv token tip20ChannelReserveAddress to' amount

def ensureSender (token payer : Address) : Exec ReserveWorld Unit :=
  onTip20 token (Tip20.ensureAuthorizedAs env.toEnv token payer .sender)

/-! Operations. -/

/-- Opens a channel and pulls the initial deposit. -/
def open_ (msgSender payee operator token : Address) (deposit : Nat)
    (salt : B256) (authorizedSigner : Address) : Exec ReserveWorld ChannelDescriptor := do
  require (¬(payee = 0 ∨ payee.isTip20 = true ∨ (payee.isVirtual = true ∧
    (operator = 0 ∨ operator.isVirtual = true)))) (.tip20ChannelReserve .invalidPayee)
  onTokens (Tip20.fromAddress token)
  require (deposit ≠ 0) (.tip20ChannelReserve .zeroDeposit)
  let expiringNonceHash ← query fun r => r.channelOpenContextHash
  require (expiringNonceHash ≠ 0) (.tip20ChannelReserve .expiringNonceHashNotSet)
  let channelId : ChannelDescriptor := ⟨msgSender, payee, operator, token,
    salt, authorizedSigner, expiringNonceHash⟩
  checkOpen channelId
  pullDeposit env token msgSender payee msgSender deposit
  writeChannelStateSpendingCredit env msgSender channelId
    { settled := 0
      deposit := deposit
      closeRequestedAt := 0
      usesLogicalReceivePolicySender := .t12 ≤ env.spec }
  updates fun w => { w with
    reserve.openedThisTx := Function.update w.reserve.openedThisTx channelId true }
  pure channelId

/-- Pays the unsettled part of a larger voucher. -/
def settle (msgSender : Address) (descriptor : ChannelDescriptor)
    (cumulativeAmount : Nat) (signature : B256) : Exec ReserveWorld Unit := do
  let state ← loadExistingState descriptor
  ensurePayeeOrOperator msgSender descriptor
  require (cumulativeAmount ≤ state.deposit) (.tip20ChannelReserve .amountExceedsDeposit)
  require (state.settled < cumulativeAmount) (.tip20ChannelReserve .amountNotIncreasing)
  validateVoucher env descriptor cumulativeAmount signature
  let delta ← expect (checkedSub cumulativeAmount state.settled)
    "cumulative amount already checked to be increasing"
  onTokens (Tip20.fromAddress descriptor.token)
  if .t12 ≤ env.spec then do
    deliverCapture env descriptor.token descriptor.payer descriptor.payee state delta
    writeState env.spec descriptor { state with settled := cumulativeAmount }
  else do
    ensureSender env descriptor.token descriptor.payer
    writeState env.spec descriptor { state with settled := cumulativeAmount }
    payOut env descriptor.token descriptor.payee delta

/-- Adds to the deposit and cancels a pending close request. -/
def topUp (msgSender : Address) (descriptor : ChannelDescriptor)
    (additionalDeposit : Nat) : Exec ReserveWorld Unit := do
  let state ← loadExistingState descriptor
  require (msgSender = descriptor.payer) (.tip20ChannelReserve .notPayer)
  if additionalDeposit = 0 then
    if state.closeRequestedAt = 0 then pure ()
    else writeState env.spec descriptor { state with closeRequestedAt := 0 }
  else do
    let nextDeposit ← orFail (checkedAdd 96 state.deposit additionalDeposit)
      (.tip20ChannelReserve .depositOverflow)
    onTokens (Tip20.fromAddress descriptor.token)
    pullDeposit env descriptor.token msgSender descriptor.payee
      (state.receivePolicySender msgSender) additionalDeposit
    writeState env.spec descriptor { state with deposit := nextDeposit, closeRequestedAt := 0 }

/-- Starts the close timer of the payer; it is not restarted. -/
def requestClose (msgSender : Address) (descriptor : ChannelDescriptor) :
    Exec ReserveWorld Unit := do
  let state ← loadExistingState descriptor
  require (msgSender = descriptor.payer) (.tip20ChannelReserve .notPayer)
  if state.closeRequestedAt ≠ 0 then pure ()
  else
    writeState env.spec descriptor { state with
      closeRequestedAt := nowU32 env }

/-- Closes from the payee's side, capturing at most the voucher. -/
def close (msgSender : Address) (descriptor : ChannelDescriptor)
    (cumulativeAmount captureAmount : Nat) (signature : B256) : Exec ReserveWorld Unit := do
  let state ← loadExistingState descriptor
  ensurePayeeOrOperator msgSender descriptor
  require (¬(captureAmount < state.settled ∨ cumulativeAmount < captureAmount))
    (.tip20ChannelReserve .captureAmountInvalid)
  require (captureAmount ≤ state.deposit) (.tip20ChannelReserve .amountExceedsDeposit)
  if state.settled < captureAmount then
    validateVoucher env descriptor cumulativeAmount signature
  else pure ()
  let delta ← expect (checkedSub captureAmount state.settled)
    "capture amount already checked against previous settled amount"
  let refund ← expect (checkedSub state.deposit captureAmount)
    "capture amount already checked against deposit"
  if .t12 ≤ env.spec then do
    onTokens (Tip20.fromAddress descriptor.token)
    if delta ≠ 0 then
      deliverCapture env descriptor.token descriptor.payer descriptor.payee state delta
    else pure ()
    if refund ≠ 0 then
      deliverRefund env descriptor.token descriptor.payer refund
    else pure ()
    deleteChannelStateAndCreditPayer env descriptor descriptor.payer
  else do
    deleteChannelStateAndCreditPayer env descriptor descriptor.payer
    onTokens (Tip20.fromAddress descriptor.token)
    if delta ≠ 0 then do
      ensureSender env descriptor.token descriptor.payer
      payOut env descriptor.token descriptor.payee delta
    else pure ()
    if refund ≠ 0 then payOut env descriptor.token descriptor.payer refund
    else pure ()

/-- Takes the rest of the deposit back after the grace period. -/
def withdraw (msgSender : Address) (descriptor : ChannelDescriptor) : Exec ReserveWorld Unit := do
  let state ← loadExistingState descriptor
  require (msgSender = descriptor.payer) (.tip20ChannelReserve .notPayer)
  require (state.closeRequestedAt ≠ 0 ∧ state.closeRequestedAt + closeGracePeriod ≤ now env)
    (.tip20ChannelReserve .closeNotReady)
  let refund ← expect (checkedSub state.deposit state.settled) "settled is always <= deposit"
  if .t12 ≤ env.spec then do
    if refund ≠ 0 then do
      onTokens (Tip20.fromAddress descriptor.token)
      deliverRefund env descriptor.token descriptor.payer refund
    else pure ()
    deleteChannelStateAndCreditPayer env descriptor descriptor.payer
  else do
    deleteChannelStateAndCreditPayer env descriptor descriptor.payer
    if refund ≠ 0 then do
      onTokens (Tip20.fromAddress descriptor.token)
      payOut env descriptor.token descriptor.payer refund
    else pure ()

end ChannelReserve

/-- The entry points of the reserve. -/
inductive ReserveCall where
  | open_ (msgSender payee operator token : Address) (deposit : Nat)
      (salt : B256) (authorizedSigner : Address)
  | settle (msgSender : Address) (descriptor : ChannelDescriptor)
      (cumulativeAmount : Nat) (signature : B256)
  | topUp (msgSender : Address) (descriptor : ChannelDescriptor) (additionalDeposit : Nat)
  | requestClose (msgSender : Address) (descriptor : ChannelDescriptor)
  | close (msgSender : Address) (descriptor : ChannelDescriptor)
      (cumulativeAmount captureAmount : Nat) (signature : B256)
  | withdraw (msgSender : Address) (descriptor : ChannelDescriptor)

namespace ReserveCall

/-- What an entry point runs once the mode of the credits is set. -/
def body (env : ReserveEnv) : ReserveCall → Exec ReserveWorld Unit
  | open_ msgSender payee operator token deposit salt authorizedSigner => do
    let _ ← ChannelReserve.open_ env msgSender payee operator token deposit salt authorizedSigner
  | settle msgSender descriptor cumulativeAmount signature =>
    ChannelReserve.settle env msgSender descriptor cumulativeAmount signature
  | topUp msgSender descriptor additionalDeposit =>
    ChannelReserve.topUp env msgSender descriptor additionalDeposit
  | requestClose msgSender descriptor =>
    ChannelReserve.requestClose env msgSender descriptor
  | close msgSender descriptor cumulativeAmount captureAmount signature =>
    ChannelReserve.close env msgSender descriptor cumulativeAmount captureAmount signature
  | withdraw msgSender descriptor =>
    ChannelReserve.withdraw env msgSender descriptor

def exec (env : ReserveEnv) (c : ReserveCall) : Exec ReserveWorld Unit := do
  StorageCredits.preserveStorageCredits env.spec
  c.body env

end ReserveCall

end Tempo
