/-
The calls of a zone portal.  Delivering a withdrawal runs a callback, which
may call the portal again; what a callback does is a list of such calls, each
caught or not, so every interleaving of calls in callbacks is a run here.
-/
import Tempo.Zones.Portal

namespace Tempo.Zones

variable {H : Type} [Zero H] [DecidableEq H] {d : Deployment H}

open L1 Deployment Function

/-- The calls that run no callback. -/
inductive SimpleCall (H : Type) where
  | governance (call : GovernanceCall)
  | enableToken (token : Address)
  | deposit (args : DepositArgs)
  | depositEncrypted (args : DepositArgs)
  | claimRefund (token : Address) (behaviour : TransferBehaviour)
  | submitBatch (args : BatchArgs H)

def SimpleCall.exec (d : Deployment H) (env : CallEnv H) : SimpleCall H → PortalExec H Unit
  | governance call => do
    let messenger ← reads fun s => s.portal.messenger
    governed (call.exec d.keccak d.self messenger env)
  | enableToken token => d.enableToken env token
  | deposit args => d.deposit env args
  | depositEncrypted args => d.depositEncrypted env args
  | claimRefund token behaviour => d.claimRefund env token behaviour
  | submitBatch args => d.submitBatch env args

/-- What others do between two calls of the portal or inside a callback. -/
inductive OuterAction (H : Type) where
  /-- A call whose revert is caught. -/
  | call (env : CallEnv H) (call : SimpleCall H)
  /-- A transfer between other accounts, or into the portal. -/
  | transfer (token source target : Address) (amount : Nat)
  /-- Newly issued tokens. -/
  | mint (token target : Address) (amount : Nat)
  /-- Tokens of another account destroyed. -/
  | burn (token source : Address) (amount : Nat)

/-- The balances others can bring about: the portal itself calls nobody on
its own account and its balance is never burned. -/
def OuterAction.exec (d : Deployment H) : OuterAction H → PortalExec H Unit
  | call env c =>
    if env.sender = d.self then pure ()
    else do
      let _ ← attempts (rollback (c.exec d env))
  | transfer token source target amount => do
    let s ← reads id
    if source ≠ d.self ∧ amount ≤ s.balances token source then
      updates fun s =>
        { s with
          balances := moved s.balances token source target amount
          given := credit s.given token (if target = d.self then amount else 0) }
  | mint token target amount =>
    updates fun s =>
      { s with
        balances := update s.balances token (credit (s.balances token) target amount)
        given := credit s.given token (if target = d.self then amount else 0) }
  | burn token source amount =>
    if source ≠ d.self then
      updates fun s =>
        { s with
          balances := update s.balances token (debit (s.balances token) source amount) }
    else pure ()

/-- A call of the messenger: what happens in the callback, and whether the
messenger reverts in the end. -/
structure Relay (H : Type) where
  actions : List (OuterAction H)
  reverts : Bool

/-- How tokens, registries, messenger and callback behave while one
withdrawal is processed. -/
structure WithdrawalBehaviour (H : Type) where
  feeTransfer : TransferBehaviour
  transfer : TransferBehaviour
  toMessenger : Reply
  relay : Relay H

namespace Deployment

variable (d : Deployment H)

def relayMessage (r : Relay H) : PortalExec H Unit := do
  r.actions.forM (·.exec d)
  require (¬r.reverts) .external

/-- Deliver a callback withdrawal in a frame of its own. -/
def deliverWithdrawal (env : CallEnv H) (token target : Address)
    (amount : Nat) (toMessenger : Reply) (relay : Relay H) : PortalExec H Unit := do
  require (env.sender = d.self) .notSelf
  let p ← reads fun s => s.portal
  require (¬(p.governance.isGatewayEnforced ∧
    ¬p.governance.hasRole target .callbackGateway)) .invalidCallbackTarget
  let sent ← transfer token d.self (env.resolveRecipient p.messenger) amount toMessenger
  require sent .transferFailed
  let depositQueueHashBefore := p.currentDepositQueueHash
  setStatus .callbackDepositAvailable
  d.relayMessage relay
  setStatus .processing
  let p ← reads fun s => s.portal
  require (¬(p.governance.isAccessEnforced ∧ p.currentDepositQueueHash = depositQueueHashBefore))
    .callbackDidNotReturnToZone

/-- Return a failed withdrawal to the zone as a deposit. -/
def enqueueBounceBack (token : Address) (amount : Nat)
    (fallbackNonce : BitVec 64) : PortalExec H Unit := do
  let p ← reads fun s => s.portal
  let newHash := d.keccak.queuedDeposit
    (.withdrawalBounceBack { token, to' := ⟨fallbackNonce.setWidth 160⟩, amount })
    p.currentDepositQueueHash
  let thisDeposit ← recordDeposit newHash maxUnprocessedDeposits
  emit (.withdrawalBounceBack newHash fallbackNonce token amount thisDeposit)

/-- Keep a refund for its owner to claim. -/
def parkRefund (token account : Address) (amount : Nat) : PortalExec H Unit := do
  let p ← reads fun s => s.portal
  require (p.refunds token account + amount < 2 ^ 128) .arithmetic
  setPortal fun p =>
    { p with
      refunds := update p.refunds token (update (p.refunds token) account
          (p.refunds token account + amount)) }

/-- Refund a failed deposit, less a fee for the admin when the admin can
receive it. -/
def processDepositBounceBack (env : CallEnv H) (w : Withdrawal)
    (b : WithdrawalBehaviour H) : PortalExec H Unit := do
  let g ← reads fun s => s.portal.governance
  let bouncebackFee := min (calculateBouncebackFee env g) w.amount
  let collected ← d.tryTransferWhen (bouncebackFee > 0) env w.token g.admin
    bouncebackFee b.feeTransfer
  let collectedFee := if collected then bouncebackFee else 0
  let refundAmount := w.amount - collectedFee
  let success ← d.tryTransferWhen (g.isAllowed w.to') env w.token w.to' refundAmount b.transfer
  if success then
    emit (.depositBounceBack w.to' w.token refundAmount collectedFee)
  else do
    parkRefund w.token w.to' refundAmount
    emit (.depositBounceBackPending w.to' w.token refundAmount collectedFee)

/-- Send a user withdrawal, directly or through a callback; false when it
could not be delivered.  One that asks for too much gas is not tried. -/
def sendWithdrawal (env : CallEnv H) (w : Withdrawal)
    (b : WithdrawalBehaviour H) : PortalExec H Bool := do
  let g ← reads fun s => s.portal.governance
  if w.gasLimit > maxWithdrawalGasLimit then pure false
  else if w.gasLimit = 0 then
    d.tryTransferWhen ((!g.isGatewayEnforced || !g.hasRole w.to' .callbackGateway) &&
        g.isAllowed w.to') env w.token w.to' w.amount b.transfer
  else do
    let outcome ← attempts (rollback
      (d.deliverWithdrawal { env with sender := d.self } w.token w.to'
        w.amount b.toMessenger b.relay))
    pure outcome.toBool

def processWithdrawal (env : CallEnv H) (w : Withdrawal)
    (remainingQueue : H) (b : WithdrawalBehaviour H) : PortalExec H Unit := do
  let p ← reads fun s => s.portal
  let queue ← orFail (p.withdrawalQueue.dequeue d.keccak w remainingQueue) .invalidWithdrawalProof
  setPortal fun p => { p with withdrawalQueue := queue }
  emit (.dequeued w)
  if w.fallbackNonce = 0 then d.processDepositBounceBack env w b
  else do
    let success ← d.sendWithdrawal env w b
    if ¬success then
      d.enqueueBounceBack w.token w.amount w.fallbackNonce
    emit (.withdrawalProcessed w.to' w.senderTag w.token w.amount success)

def processWithdrawals (env : CallEnv H) (withdrawals : List (Withdrawal × WithdrawalBehaviour H))
    (remainingQueue : H) : PortalExec H Unit := do
  governed (Governance.onlySequencer env)
  governed (Governance.whenNotPaused env)
  let p ← reads fun s => s.portal
  require (p.withdrawalReentrancyStatus = .notEntered) .reentrantWithdrawal
  setStatus .processing
  let unprocessed ← unprocessedDeposits
  require (¬(unprocessed > maxUnprocessedDeposits ∨
    withdrawals.length > maxUnprocessedDeposits - unprocessed))
    (.depositBlockCapacityExceeded maxUnprocessedDeposits)
  let remainingQueues := WithdrawalQueue.remainingQueues d.keccak
    (withdrawals.map (·.1)) remainingQueue
  (withdrawals.zip remainingQueues).forM fun x =>
    d.processWithdrawal env x.1.1 x.2 x.1.2
  setStatus .notEntered

end Deployment

/-- What happens on Tempo, one transaction or one outside transfer at a
time. -/
inductive Call (H : Type) where
  | outer (action : OuterAction H)
  | processWithdrawals (env : CallEnv H) (withdrawals : List (Withdrawal × WithdrawalBehaviour H))
      (remainingQueue : H)

def Call.exec (d : Deployment H) : Call H → PortalExec H Unit
  | outer action => action.exec d
  | processWithdrawals env ws r =>
    if env.sender = d.self then pure ()
    else do
      let _ ← attempts (rollback (d.processWithdrawals env ws r))

variable {P : PortalError → Prop}

theorem OuterAction.throws_exec (a : OuterAction H) : Throws P (a.exec d) := by
  cases a with
  | call env c =>
    exact Throws.ite (.pure _) (.bind (.attempts _) fun _ => .pure _)
  | transfer token source target amount =>
    exact .bind (.reads _) fun _ =>
      Throws.ite (.updates _) (.pure _)
  | mint token target amount => exact .updates _
  | burn token source amount =>
    exact Throws.ite (.updates _) (.pure _)

/-- A transaction may revert, but there is always a state after it. -/
theorem Call.throws_exec (c : Call H) : Throws P (c.exec d) := by
  cases c with
  | outer action => exact action.throws_exec
  | processWithdrawals env ws r =>
    exact Throws.ite (.pure _) (.bind (.attempts _) fun _ => .pure _)

/-- One step of a portal's history. -/
def Step (d : Deployment H) (s s' : L1 H) : Prop :=
  ∃ c : Call H, Yields (c.exec d) s () s'

/-- A portal as its factory leaves it. -/
def Initialized (d : Deployment H) (s : L1 H) : Prop :=
  ∃ (balances : Address → Address → Nat) (env : CallEnv H) (a : InitArgs),
    Yields (d.initializePortal env a) ⟨.blank, balances, [], 0, 0⟩ () s

/-- The states of a portal's history. -/
def Reachable (d : Deployment H) (s : L1 H) : Prop :=
  ∃ s₀, Initialized d s₀ ∧ Relation.ReflTransGen (Step d) s₀ s

/-- The state after a list of calls. -/
def Deployment.history (d : Deployment H) (s : L1 H) (calls : List (Call H)) : L1 H :=
  calls.foldl (fun s c => finalState (c.exec d) s) s

theorem Reachable.history {s : L1 H} (h : Reachable d s)
    (calls : List (Call H)) : Reachable d (d.history s calls) := by
  induction calls generalizing s with
  | nil => exact h
  | cons c rest ih =>
    obtain ⟨s0, hinit, hrun⟩ := h
    exact ih ⟨s0, hinit, hrun.tail ⟨c, (c.throws_exec.runs s).yields_finalState⟩⟩

end Tempo.Zones
