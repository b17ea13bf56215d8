/-
The guard that holds inbound funds blocked by a receive policy until they are
claimed or burned.  A receipt is handed to the guard as bytes; `none` stands
for bytes that do not decode.
-/
import Tempo.Tip20.Calls
import Tempo.Tip20.World

namespace Tempo

namespace RecoveryMode

/-- The mode a receipt and its resolved receiver imply. -/
def ofReceipt (receipt : ClaimReceipt) (receiver : Address) : RecoveryMode :=
  if receipt.recoveryAuthority = 0 then .originator
  else if receipt.recoveryAuthority = receiver then .receiver
  else .thirdParty

/-- The account that may claim. -/
def authority (mode : RecoveryMode) (receipt : ClaimReceipt) : Address :=
  match mode with
  | .originator => receipt.originator
  | .receiver | .thirdParty => receipt.recoveryAuthority

end RecoveryMode

namespace ReceivePolicyGuard

variable (env : Env)

def setBalance (receipt : ClaimReceipt) (amount : Nat) : Exec TokenWorld Unit :=
  updates fun w => { w with
    guard.balances := Function.update w.guard.balances receipt amount }

/-- The receipt, the account its recipient stands for now, and the mode. -/
def resolveReceipt (receipt : Option ClaimReceipt) :
    Exec TokenWorld (ClaimReceipt × Address × RecoveryMode) := do
  let receipt ← orFail receipt (.receivePolicyGuard .invalidReceipt)
  let receiver ← failsWith (.receivePolicyGuard .invalidClaimAddress)
    (onToken receipt.token (Tip20.resolveRecipient env receipt.recipient))
  pure (receipt, receiver, .ofReceipt receipt receiver)

/-- Releases the blocked funds to the authorized receiver. -/
def claim (msgSender to' : Address) (receipt : Option ClaimReceipt) : Exec TokenWorld Unit := do
  require (to' ≠ receivePolicyGuardAddress) (.receivePolicyGuard .invalidClaimAddress)
  let (receipt, receiver, recoveryMode) ← resolveReceipt env receipt
  let recoveryAuthority := recoveryMode.authority receipt
  require (recoveryAuthority = msgSender) (.receivePolicyGuard .unauthorizedClaimer)
  let amount ← reads fun w => w.guard.balances receipt
  require (amount ≠ 0) (.receivePolicyGuard .invalidReceipt)
  setBalance receipt 0
  Tip20.fromAddress receipt.token
  onToken receipt.token (Tip20.releaseBlockedFunds env receipt.token
    receipt.originator receiver to' amount recoveryMode recoveryAuthority)

/-- Burns the blocked funds of one receipt, on the strength of a policy that
blocks their owner. -/
def burnBlockedReceipt (msgSender : Address) (receipt : Option ClaimReceipt) :
    Exec TokenWorld Unit := do
  let (receipt, receiver, recoveryMode) ← resolveReceipt env receipt
  let amount ← reads fun w => w.guard.balances receipt
  require (amount ≠ 0) (.receivePolicyGuard .invalidReceipt)
  let owner := recoveryMode.policySubject receipt.originator receiver
  Tip20.fromAddress receipt.token
  onToken receipt.token (Tip20.burnBlocked env receipt.token msgSender owner amount false)
  setBalance receipt 0

end ReceivePolicyGuard

/-- What can be asked of the tokens and of the guard. -/
inductive GuardCall where
  | token (token : Address) (c : TokenCall)
  | claim (msgSender to' : Address) (receipt : Option ClaimReceipt)
  | burnBlockedReceipt (msgSender : Address) (receipt : Option ClaimReceipt)

namespace GuardCall

def exec (env : Env) : GuardCall → Exec TokenWorld Unit
  | token self c => onToken self (c.exec env self)
  | claim msgSender to' receipt =>
    ReceivePolicyGuard.claim env msgSender to' receipt
  | burnBlockedReceipt msgSender receipt =>
    ReceivePolicyGuard.burnBlockedReceipt env msgSender receipt

/-- Calls that can be made: on tokens, not by the guard, and not through the
two entry points that only the guard uses. -/
def External : GuardCall → Prop
  | token self c => self.isTip20 = true ∧
      c.External receivePolicyGuardAddress ∧
      match c with
      | .burnBlocked _ _ _ checkProtected => checkProtected = true
      | .releaseBlockedFunds _ _ _ _ _ _ => False
      | _ => True
  | _ => True

/-- The receipt a call redeems. -/
def redeems : GuardCall → Option ClaimReceipt
  | token _ _ => none
  | claim _ _ receipt => receipt
  | burnBlockedReceipt _ receipt => receipt

/-- One successful call from T6 on. -/
def Step (w w' : TokenWorld) : Prop :=
  ∃ (env : Env) (c : GuardCall), .t6 ≤ env.spec ∧ c.External ∧ Yields (c.exec env) w () w'

end GuardCall

end Tempo
