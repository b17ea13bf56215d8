/-
What the calls of a zone portal do.  `Change` lists the elementary changes
with the checks that guard them; every call, with whatever its callbacks do,
is a sequence of these, so that what is shown of the changes holds of every
run.
-/
import Tempo.Zones.Calls

namespace Tempo.Zones

open Function

variable {H : Type}

/-! What the log says. -/

namespace PortalEvent

/-- The deposit an event queued. -/
def queued? : PortalEvent H → Option QueuedDeposit
  | depositMade _ deposit _ _ => some (.deposit deposit)
  | withdrawalBounceBack _ fallbackNonce token amount _ =>
    some (.withdrawalBounceBack { token, to' := ⟨fallbackNonce.setWidth 160⟩, amount })
  | _ => none

def batch? : PortalEvent H → Option (AcceptedBatch H)
  | batchSubmitted b => some b
  | _ => none

def dequeued? : PortalEvent H → Option Withdrawal
  | dequeued w => some w
  | _ => none

end PortalEvent

namespace L1

/-- Everything ever put into the deposit queue. -/
def deposits (s : L1 H) : List QueuedDeposit :=
  s.log.filterMap PortalEvent.queued?

def batches (s : L1 H) : List (AcceptedBatch H) :=
  s.log.filterMap PortalEvent.batch?

/-- The withdrawals taken off the queue. -/
def dequeued (s : L1 H) : List Withdrawal :=
  s.log.filterMap PortalEvent.dequeued?

/-! The states the elementary changes lead to. -/

def withGovernance (s : L1 H) (g : Governance) : L1 H :=
  { s with portal := { s.portal with governance := g } }

def withStatus (s : L1 H) (status : WithdrawalStatus) : L1 H :=
  { s with
    portal := { s.portal with withdrawalReentrancyStatus := status } }

def logged (s : L1 H) (e : PortalEvent H) : L1 H :=
  { s with log := s.log ++ [e] }

/-- `amount` of `token` moved, if it was. -/
def paid (s : L1 H) (sent : Bool) (token source target : Address) (amount : Nat) : L1 H :=
  if sent then
    { s with
      balances := moved s.balances token source target amount
      given :=
        if source = target then credit s.given token amount else s.given }
  else s

/-- `amount` of `token` pulled from `source`, or missing. -/
def pulled (s : L1 H) (collected : Bool) (token source target : Address) (amount : Nat) : L1 H :=
  { s.paid collected token source target amount with
    unpaid := credit (s.paid collected token source target amount).unpaid token
      (if collected then 0 else amount) }

/-- A fee passed on, or kept. -/
def passedOn (s : L1 H) (sent : Bool) (token source target : Address) (fee : Nat) : L1 H :=
  { s.paid sent token source target fee with
    given := credit (s.paid sent token source target fee).given token (if sent then 0 else fee) }

def recorded (s : L1 H) (newHash : H) : L1 H :=
  { s with
    portal :=
      { s.portal with
        currentDepositQueueHash := newHash
        depositCount := s.portal.depositCount + 1 } }

/-- A withdrawal off the queue. -/
def taken (s : L1 H) (queue : WithdrawalQueue H) (w : Withdrawal) : L1 H :=
  logged { s with portal := { s.portal with withdrawalQueue := queue } } (.dequeued w)

def withRefund (s : L1 H) (token account : Address) (amount : Nat) : L1 H :=
  { s with
    portal :=
      { s.portal with
        refunds := update s.portal.refunds token
          (update (s.portal.refunds token) account amount) } }

def withToken (d : Deployment H) (s : L1 H) (t : EnabledToken) : L1 H :=
  logged
    { s with
      portal :=
        { s.portal with
          tokenEnablementHash := d.keccak.tokenEnablement t s.portal.tokenEnablementHash
          governance :=
            { s.portal.governance with
              tokenConfigs := update s.portal.governance.tokenConfigs t.token ⟨true, true⟩ }
          enabledTokens := s.portal.enabledTokens ++ [t.token] } }
    (.tokenEnabled t)

variable (s : L1 H)
include s

@[simp]
theorem withStatus_depositCount (status : WithdrawalStatus) :
    (s.withStatus status).portal.depositCount = s.portal.depositCount := rfl

@[simp]
theorem paid_portal (sent : Bool) (token source target : Address) (amount : Nat) :
    (s.paid sent token source target amount).portal = s.portal := by
  cases sent <;> rfl

@[simp]
theorem paid_log (sent : Bool) (token source target : Address) (amount : Nat) :
    (s.paid sent token source target amount).log = s.log := by
  cases sent <;> rfl

@[simp]
theorem paid_unpaid (sent : Bool) (token source target : Address) (amount : Nat) :
    (s.paid sent token source target amount).unpaid = s.unpaid := by
  cases sent <;> rfl

@[simp]
theorem pulled_portal (collected : Bool) (token source target : Address) (amount : Nat) :
    (s.pulled collected token source target amount).portal = s.portal :=
  s.paid_portal collected token source target amount

@[simp]
theorem pulled_log (collected : Bool) (token source target : Address) (amount : Nat) :
    (s.pulled collected token source target amount).log = s.log :=
  s.paid_log collected token source target amount

theorem passedOn_zero (token source target : Address) :
    s.passedOn false token source target 0 = s := by
  have hgiven : credit s.given token 0 = s.given := by
    funext t
    by_cases ht : t = token
    · rw [ht, credit_self, add_zero]
    · rw [credit_of_ne _ ht]
  simp [passedOn, paid, hgiven]

@[simp]
theorem passedOn_portal (sent : Bool) (token source target : Address) (fee : Nat) :
    (s.passedOn sent token source target fee).portal = s.portal :=
  s.paid_portal sent token source target fee

@[simp]
theorem passedOn_log (sent : Bool) (token source target : Address) (fee : Nat) :
    (s.passedOn sent token source target fee).log = s.log := s.paid_log sent token source target fee

end L1

open L1 Deployment

/-- Fewer than `maximum` deposits are unprocessed, and the counter has room
for one more. -/
structure DepositRoom (p : Portal H) (maximum : Nat) : Prop where
  processed_le : p.lastProcessedDepositNumber ≤ p.depositCount
  lt_maximum : p.depositCount - p.lastProcessedDepositNumber < maximum
  count_lt : p.depositCount + 1 < 2 ^ 64

variable [Zero H] [DecidableEq H] {d : Deployment H}

/-- The checks a settled batch passed. -/
structure Settles (d : Deployment H) (p : Portal H) (t : Settlement H)
    (signatures : List Bytes) : Prop where
  portal_eq : t.portal = d.self
  zoneId_eq : t.zoneId = p.zoneId
  version_eq : t.sequencerSetVersion = p.governance.sequencerSetVersion
  index_eq : t.withdrawalBatchIndex = p.withdrawalBatchIndex + 1
  verifier_eq : t.verifier = p.verifier
  prevBlockHash_eq : t.blockTransition.prevBlockHash = p.blockHash
  height_lt : p.zoneHeight < t.zoneHeight
  quorum : p.governance.sequencerThreshold ≤ signatures.length
  signers : ∃ signers, recoverSigners (d.recover (d.settlementDigest t))
    p.governance [] signatures = some signers
  prevDeposit_eq : t.depositQueueTransition.prevDepositNumber = p.lastProcessedDepositNumber
  deposit_le : t.depositQueueTransition.prevDepositNumber ≤
    t.depositQueueTransition.nextDepositNumber
  deposit_le_count : t.depositQueueTransition.nextDepositNumber ≤ p.depositCount
  prevToken_eq : t.tokenEnablementTransition.prevProcessedTokenCount =
    if p.tokenEnablementCursorInitialized then
      p.lastProcessedEnabledTokenCount
    else 0
  token_le : t.tokenEnablementTransition.prevProcessedTokenCount ≤
    t.tokenEnablementTransition.nextProcessedTokenCount
  token_le_count : t.tokenEnablementTransition.nextProcessedTokenCount ≤
    p.enabledTokens.length % 2 ^ 64
  token_outstanding : p.tokenEnablementCursorInitialized = false →
    t.tokenEnablementTransition.nextProcessedTokenCount ≠ 0 → p.enabledTokens.length % 2 ^ 64 -
      t.tokenEnablementTransition.nextProcessedTokenCount ≤ maxUnprocessedTokenEnablements

/-- The batch entered into the log. -/
def acceptedBatch (p : Portal H) (t : Settlement H) (signatures : List Bytes) : AcceptedBatch H :=
  { settlement := t
    signatures
    sequencers := p.governance.sequencers
    threshold := p.governance.sequencerThreshold }

/-- The queued form of a failed withdrawal. -/
def bounceBackDeposit (w : Withdrawal) : QueuedDeposit :=
  .withdrawalBounceBack
    { token := w.token, to' := ⟨w.fallbackNonce.setWidth 160⟩,
      amount := w.amount }

/-- The elementary changes that others can bring about at any time, callbacks
included. -/
inductive SimpleChange (d : Deployment H) : L1 H → L1 H → Prop where
  | governance {s : L1 H} {g : Governance} {env : CallEnv H} {call : GovernanceCall}
      (hcall : Yields (call.exec d.keccak d.self s.portal.messenger env) s.portal.governance () g) :
      SimpleChange d s (s.withGovernance g)
  | donation {s : L1 H} {balances : Address → Address → Nat}
      {given : Address → Nat} (hgiven : ∀ token, s.given token ≤ given token)
      (hself : ∀ token, balances token d.self + s.given token =
        s.balances token d.self + given token) :
      SimpleChange d s { s with balances, given }
  | enableToken {s : L1 H} {t : EnabledToken}
      (hinit : s.portal.tokenEnablementCursorInitialized = true)
      (hroom : s.portal.enabledTokens.length - s.portal.lastProcessedEnabledTokenCount <
          maxUnprocessedTokenEnablements) :
      SimpleChange d s (s.withToken d t)
  | deposit {s : L1 H} {a : Deposit} {collected feeSent : Bool}
      {fee : Nat} {target : Address} {newHash : H} (hsender : a.sender ≠ d.self)
      (hcollect : collected = true → a.amount + fee ≤ s.balances a.token a.sender)
      (hfee : feeSent = true → fee ≤ (s.pulled collected a.token a.sender
        d.self (a.amount + fee)).balances a.token d.self)
      (hhash : newHash = d.keccak.queuedDeposit (.deposit a) s.portal.currentDepositQueueHash)
      (hroom : DepositRoom s.portal (depositMaximum s.portal.withdrawalReentrancyStatus)) :
      SimpleChange d s (((((s.pulled collected a.token a.sender d.self
          (a.amount + fee)).passedOn feeSent a.token d.self target fee).withStatus
            (depositStatus s.portal.withdrawalReentrancyStatus)).recorded newHash).logged
                (.depositMade newHash a fee (s.portal.depositCount + 1)))
  | claimRefund {s : L1 H} {token account target : Address}
      (hbalance : s.portal.refunds token account ≤ s.balances token d.self) :
      SimpleChange d s (((s.withRefund token account 0).paid true token d.self target
          (s.portal.refunds token account)).logged
            (.refundClaimed account token (s.portal.refunds token account)))
  | submitBatch {s : L1 H} {t : Settlement H} {signatures : List Bytes}
      (hsettles : Settles d s.portal t signatures) :
      SimpleChange d s (({ s with portal := settle s.portal t } : L1 H).logged
          (.batchSubmitted (acceptedBatch s.portal t signatures)))

/-- What becomes of a withdrawal taken off the queue. -/
inductive Outcome where
  | delivered | bouncedBack | refunded | parked
  deriving DecidableEq, Repr

/-- Taking the withdrawal `w` off the queue, with what becomes of it at
once. -/
inductive Taking (d : Deployment H) (w : Withdrawal) (r : H) : Outcome → L1 H → L1 H → Prop where
  | deliver {s : L1 H} {queue : WithdrawalQueue H} {target : Address}
      (hqueue : s.portal.withdrawalQueue.dequeue d.keccak w r = some queue)
      (hnonce : w.fallbackNonce ≠ 0) (hbalance : w.amount ≤ s.balances w.token d.self) :
      Taking d w r .delivered s ((s.taken queue w).paid true w.token d.self target w.amount)
  | bounceBack {s : L1 H} {newHash : H} {queue : WithdrawalQueue H}
      (hqueue : s.portal.withdrawalQueue.dequeue d.keccak w r = some queue)
      (hnonce : w.fallbackNonce ≠ 0) (hhash : newHash = d.keccak.queuedDeposit (bounceBackDeposit w)
        s.portal.currentDepositQueueHash)
      (hroom : DepositRoom s.portal maxUnprocessedDeposits) :
      Taking d w r .bouncedBack s (((s.taken queue w).recorded newHash).logged
          (.withdrawalBounceBack newHash w.fallbackNonce w.token w.amount
            (s.portal.depositCount + 1)))
  | refund {s : L1 H} {queue : WithdrawalQueue H}
      {collected : Bool} {fee : Nat} {admin target : Address}
      (hqueue : s.portal.withdrawalQueue.dequeue d.keccak w r = some queue)
      (hnonce : w.fallbackNonce = 0) (hfee : fee ≤ w.amount)
      (hcollect : collected = true → fee ≤ s.balances w.token d.self)
      (hbalance : w.amount - (if collected then fee else 0) ≤
        ((s.taken queue w).paid collected w.token d.self admin fee).balances w.token d.self) :
      Taking d w r .refunded s ((((s.taken queue w).paid collected w.token d.self admin fee).paid
          true w.token d.self target (w.amount - if collected then fee else 0)).logged
              (.depositBounceBack w.to' w.token (w.amount - if collected then fee else 0)
                (if collected then fee else 0)))
  | park {s : L1 H} {queue : WithdrawalQueue H} {collected : Bool} {fee : Nat} {admin : Address}
      (hqueue : s.portal.withdrawalQueue.dequeue d.keccak w r = some queue)
      (hnonce : w.fallbackNonce = 0) (hfee : fee ≤ w.amount)
      (hcollect : collected = true → fee ≤ s.balances w.token d.self) :
      Taking d w r .parked s ((((s.taken queue w).paid collected w.token d.self admin
          fee).withRefund w.token w.to' (s.portal.refunds w.token w.to' +
            (w.amount - if collected then fee else 0))).logged
              (.depositBounceBackPending w.to' w.token (w.amount - if collected then fee else 0)
                (if collected then fee else 0)))

/-- The elementary changes of a portal. -/
inductive Change (d : Deployment H) : L1 H → L1 H → Prop where
  | simple {s s' : L1 H} (hsimple : SimpleChange d s s') : Change d s s'
  | taking {s s' : L1 H} {w : Withdrawal} {r : H} {o : Outcome}
      (htaking : Taking d w r o s s') : Change d s s'
  | processed {s : L1 H} {w : Withdrawal} {success : Bool} :
      Change d s (s.logged (.withdrawalProcessed w.to' w.senderTag w.token w.amount success))
  | status {s : L1 H} (status : WithdrawalStatus) :
      Change d s (s.withStatus status)

/-- What is logged last of a withdrawal. -/
def finished (w : Withdrawal) (o : Outcome) (s : L1 H) : L1 H :=
  match o with
  | .delivered => s.logged
      (.withdrawalProcessed w.to' w.senderTag w.token w.amount true)
  | .bouncedBack => s.logged
      (.withdrawalProcessed w.to' w.senderTag w.token w.amount false)
  | .refunded | .parked => s

omit [Zero H] [DecidableEq H] in
@[simp]
theorem finished_portal (w : Withdrawal) (o : Outcome) (s : L1 H) :
    (finished w o s).portal = s.portal := by
  cases o <;> rfl

/-- Any number of elementary changes. -/
abbrev Changes (d : Deployment H) : L1 H → L1 H → Prop :=
  Relation.ReflTransGen (Change d)

/-- Any number of changes brought about by others. -/
abbrev SimpleChanges (d : Deployment H) : L1 H → L1 H → Prop :=
  Relation.ReflTransGen (SimpleChange d)

theorem SimpleChanges.changes {s s' : L1 H}
    (h : SimpleChanges d s s') : Changes d s s' := h.lift id fun _ _ => Change.simple

/-- What can happen between the transfer of a withdrawal and its end: nothing,
or the callback with one deposit through the reserve. -/
def Callback (d : Deployment H) (s s' : L1 H) : Prop :=
  s' = s ∨ ∃ s₁, SimpleChanges d (s.withStatus .callbackDepositAvailable) s₁ ∧
    s' = s₁.withStatus .processing

theorem Callback.changes {s s' : L1 H} (h : Callback d s s') : Changes d s s' := by
  rcases h with rfl | ⟨s1, hchanges, rfl⟩
  · exact .refl
  · exact (Relation.ReflTransGen.head (.status _) hchanges.changes).tail (.status _)

end Tempo.Zones
