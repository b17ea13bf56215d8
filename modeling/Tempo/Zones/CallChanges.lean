/-
Every call of a zone portal, with whatever its callbacks do, is a sequence of
elementary changes: one rule for each function, and the run of any number of
calls.
-/
import Tempo.Zones.Changes

namespace Tempo.Zones

variable {H : Type} {d : Deployment H}

open L1 Deployment Function

/-! Pieces. -/

variable {s s' : L1 H} {token source target to' : Address} {amount : Nat} {env : CallEnv H}
  {b : WithdrawalBehaviour H} {w : Withdrawal} {sent : Bool} {collect feeTransfer : Reply} {r : H}
  {a : BatchArgs H}

/-- A call that the portal does not make itself, caught: it goes through or
changes nothing. -/
theorem yields_unlessSelf {m : PortalExec H Unit} (h : Yields (if env.sender = d.self then pure ()
      else do let _ ← attempts (rollback m)) s () s') :
    s' = s ∨ env.sender ≠ d.self ∧ Yields m s () s' := by
  rcases yields_ite.mp h with ⟨-, hself⟩ | ⟨hsender, hcall⟩
  · exact .inl (hself.pure).2.symm
  · obtain ⟨outcome, s1, hcaught, hend⟩ := hcall.bind
    obtain rfl := (hend.pure).2
    rcases yields_caught hcaught with ⟨⟨⟩, -, hrun⟩ | ⟨-, rfl⟩
    · exact .inr ⟨hsender, hrun⟩
    · exact .inl rfl

/-- A check of the governance in front of the rest. -/
theorem yields_governed_check {m : GovExec Unit} (hm : ReadOnly m) {β : Type}
    {k : Unit → PortalExec H β} {b : β} (h : Yields (governed m >>= k) s b s') :
    Yields m s.portal.governance () s.portal.governance ∧ Yields (k ()) s b s' := by
  obtain ⟨⟨⟩, s1, h1, h2⟩ := h.bind
  obtain ⟨g, hg, rfl⟩ := h1.focus
  obtain rfl := hm hg
  exact ⟨hg, h2⟩

theorem yields_setStatus_bind {status : WithdrawalStatus} {β : Type}
    {k : Unit → PortalExec H β} {b : β} :
    Yields (setStatus status >>= k) s b s' ↔ Yields (k ()) (s.withStatus status) b s' := Iff.rfl

theorem yields_emit {e : PortalEvent H} :
    Yields (emit e) s () s' ↔ s.logged e = s' := yields_updates

theorem Governance.readOnly_onlyAdmin (env : CallEnv H) :
    ReadOnly (onlyAdmin env) := .bind (.reads _) fun _ => .require _ _

theorem Governance.readOnly_onlySequencer (env : CallEnv H) :
    ReadOnly (onlySequencer env) := .bind (.reads _) fun _ => .require _ _

theorem Governance.readOnly_whenNotPaused (env : CallEnv H) :
    ReadOnly (whenNotPaused env) := .bind (.reads _) fun _ => .require _ _

theorem yields_transfer {reply : Reply}
    (h : Yields (transfer token source target amount reply) s sent s') :
    s' = s.paid sent token source target amount ∧
      (sent = true → amount ≤ s.balances token source) := by
  cases reply with
  | reverts => exact (yields_fails.mp h).elim
  | returns ok =>
    cases ok with
    | false =>
      obtain ⟨rfl, rfl⟩ := h.pure
      exact ⟨rfl, fun hf => nomatch hf⟩
    | true =>
      simp only [transfer, yields_steps] at h
      obtain ⟨hle, rfl, rfl⟩ := h
      exact ⟨rfl, fun _ => hle⟩

/-- An attempted transfer always comes to an end, and either moves the amount
or nothing. -/
theorem yields_tryTransfer {b : TransferBehaviour}
    (h : Yields (d.tryTransfer env token to' amount b) s sent s') :
    s' = s.paid sent token d.self (env.resolveRecipient to') amount ∧
      (sent = true → amount ≤ s.balances token d.self) := by
  rcases yields_ite.mp h with ⟨-, h⟩ | ⟨-, h⟩
  · obtain ⟨outcome, s1, hcaught, hanswer⟩ := h.bind
    rcases yields_caught hcaught with ⟨ok, rfl, htransfer⟩ | ⟨⟨e, rfl⟩, rfl⟩
    · obtain ⟨rfl, rfl⟩ := hanswer.pure
      exact yields_transfer htransfer
    · obtain ⟨rfl, rfl⟩ := hanswer.pure
      exact ⟨rfl, fun hf => nomatch hf⟩
  · obtain ⟨rfl, rfl⟩ := h.pure
    exact ⟨rfl, fun hf => nomatch hf⟩

theorem yields_tryTransferWhen {allowed : Bool} {b : TransferBehaviour}
    (h : Yields (d.tryTransferWhen allowed env token to' amount b) s sent s') :
    s' = s.paid sent token d.self (env.resolveRecipient to') amount ∧
      (sent = true → amount ≤ s.balances token d.self) := by
  rcases yields_ite.mp h with ⟨-, h⟩ | ⟨-, h⟩
  · exact yields_tryTransfer h
  · obtain ⟨rfl, rfl⟩ := h.pure
    exact ⟨rfl, fun hf => nomatch hf⟩

theorem yields_recordDeposit {newHash : H} {maximum : Nat} {n : Nat}
    (h : Yields (recordDeposit newHash maximum) s n s') :
    n = s.portal.depositCount + 1 ∧ s' = s.recorded newHash ∧ DepositRoom s.portal maximum := by
  simp only [recordDeposit, unprocessedDeposits, bind_assoc, setPortal, yields_steps] at h
  obtain ⟨hle, hlt, hcount, rfl, rfl⟩ := h
  exact ⟨rfl, rfl, hle, hlt, hcount⟩

theorem yields_enableTokenInternal (h : Yields (d.enableTokenInternal env token) s () s') :
    ∃ t : EnabledToken, t.token = token ∧ s' = s.withToken d t := by
  simp only [enableTokenInternal, setPortal, emit, yields_steps] at h
  obtain ⟨t, -, -, -, rfl⟩ := h
  exact ⟨{ t with token := token }, rfl, rfl⟩

theorem yields_passOn {fee : Nat} (h : Yields (d.passOn token target fee feeTransfer) s () s') :
    ∃ sent : Bool, (sent = true → fee ≤ s.balances token d.self) ∧
      s' = s.passedOn sent token d.self target fee := by
  obtain ⟨sent, s1, hout, hlast⟩ := h.bind
  obtain ⟨rfl, hfee⟩ := yields_transfer hout
  obtain rfl := hlast.updates
  exact ⟨sent, hfee, rfl⟩

/-- The funds of a deposit: the amount comes in, the fee goes out. -/
theorem yields_collectDepositFunds {fee net : Nat}
    (h : Yields (d.collectDepositFunds env token amount collect feeTransfer) s (fee, net) s') :
    net + fee = amount ∧ ∃ (collected feeSent : Bool) (target : Address),
      (collected = true → amount ≤ s.balances token env.sender) ∧
      (feeSent = true → fee ≤ (s.pulled collected token env.sender d.self
        amount).balances token d.self) ∧
      s' = (s.pulled collected token env.sender d.self amount).passedOn
        feeSent token d.self target fee := by
  simp only [collectDepositFunds, calculateDepositFee, bind_assoc, yields_steps] at h
  obtain ⟨-, -, hle, h⟩ := h
  obtain ⟨⟨⟩, s1, hin, h⟩ := h.bind
  obtain ⟨collected, s2, hin, hlast⟩ := hin.bind
  obtain ⟨rfl, hcollect⟩ := yields_transfer hin
  obtain rfl := hlast.updates
  rcases yields_ite.mp h with ⟨-, h⟩ | ⟨hzero, h⟩
  · obtain ⟨⟨⟩, s2, hout, h⟩ := h.bind
    obtain ⟨feeSent, hfee, rfl⟩ := yields_passOn hout
    obtain ⟨⟨rfl, rfl⟩, rfl⟩ := h
    exact ⟨by omega, collected, feeSent, _, hcollect, hfee, rfl⟩
  · obtain ⟨⟨rfl, rfl⟩, rfl⟩ := h
    refine ⟨by omega, collected, false, 0, hcollect, by simp, ?_⟩
    rw [Nat.eq_zero_of_not_pos hzero, passedOn_zero]
    rfl

theorem yields_parkRefund {account : Address}
    (h : Yields (parkRefund token account amount) s () s') :
    s' = s.withRefund token account (s.portal.refunds token account + amount) := by
  simp only [parkRefund, setPortal, yields_steps] at h
  exact h.2.symm

theorem yields_anchor {r : Nat × B256} (h : Yields (anchor env a) s r s') : s' = s := by
  simp only [anchor, yields_steps] at h
  exact h.2.2.2.2.symm

theorem yields_verifySettlement {p : Portal H} {t : Settlement H} {signatures : List Bytes}
    (h : Yields (d.verifySettlement p t signatures) s true s') :
    s' = s ∧ p.zoneHeight < t.zoneHeight ∧ p.governance.sequencerThreshold ≤ signatures.length ∧
      ∃ signers, recoverSigners (d.recover (d.settlementDigest t))
        p.governance [] signatures = some signers := by
  rcases yields_ite.mp h with ⟨-, h⟩ | ⟨hshape, h⟩
  · simp at h
  · simp only [yields_steps, Bool.and_eq_true, Option.isSome_iff_exists, decide_eq_true_eq] at h
    obtain ⟨-, ⟨hsigners, hquorum⟩, rfl⟩ := h
    simp only [not_or, not_le] at hshape
    exact ⟨rfl, hshape.1, hquorum, hsigners⟩

theorem yields_enqueueBounceBack {nonce : BitVec 64}
    (h : Yields (d.enqueueBounceBack token amount nonce) s () s') :
    DepositRoom s.portal maxUnprocessedDeposits ∧ ∃ newHash, newHash = d.keccak.queuedDeposit
        (.withdrawalBounceBack ⟨token, ⟨nonce.setWidth 160⟩, amount⟩)
        s.portal.currentDepositQueueHash ∧ s' = (s.recorded newHash).logged
        (.withdrawalBounceBack newHash nonce token amount (s.portal.depositCount + 1)) := by
  simp only [enqueueBounceBack, yields_reads_bind] at h
  obtain ⟨n, s1, hrecord, hemit⟩ := h.bind
  obtain ⟨rfl, rfl, hroom⟩ := yields_recordDeposit hrecord
  obtain rfl := yields_emit.mp hemit
  exact ⟨hroom, _, rfl, rfl⟩

/-! The calls that run no callback. -/

variable [Zero H] [DecidableEq H]

theorem enableToken_change
    (h : Yields (d.enableToken env token) s () s') : SimpleChange d s s' := by
  have hrest := (yields_governed_check (Governance.readOnly_onlyAdmin env) h).2
  simp only [yields_steps] at hrest
  obtain ⟨-, -, hinit, -, hroom, hlast⟩ := hrest
  obtain ⟨t, -, rfl⟩ := yields_enableTokenInternal hlast
  exact .enableToken hinit hroom

/-- A deposit that goes through is recorded under the cap of its moment. -/
theorem yields_depositInternal {a : DepositArgs} (h : Yields (d.depositInternal env a) s () s') :
    DepositRoom s.portal (depositMaximum s.portal.withdrawalReentrancyStatus) ∧
      s'.portal.depositCount = s.portal.depositCount + 1 ∧ s'.portal.lastProcessedDepositNumber =
        s.portal.lastProcessedDepositNumber ∧ (env.sender ≠ d.self → SimpleChange d s s') := by
  simp only [depositInternal, requireAllowedDepositor, requireAllowed, validateDepositsActive,
    requireEncryptionKey, bind_assoc, yields_steps] at h
  obtain ⟨-, -, -, -, -, _, -, -, -, -, -, _, -, -, -, h⟩ := h
  obtain ⟨⟨fee, net⟩, s1, hfunds, hqueue⟩ := h.bind
  obtain ⟨hamount, collected, feeSent, target, hcollect, hfee, rfl⟩ :=
    yields_collectDepositFunds hfunds
  simp only [enqueueDeposit, yields_reads_bind, yields_setStatus_bind,
    passedOn_portal, pulled_portal] at hqueue
  obtain ⟨n, s2, hrecord, hemit⟩ := hqueue.bind
  obtain ⟨rfl, rfl, hle, hlt, hcount⟩ := yields_recordDeposit hrecord
  obtain rfl := yields_emit.mp hemit
  rw [← hamount] at hcollect hfee ⊢
  simp only [withStatus, passedOn_portal, pulled_portal] at hle hlt hcount
  simp only [withStatus_depositCount, passedOn_portal, pulled_portal]
  refine ⟨⟨hle, hlt, hcount⟩, ?_, ?_, fun hsender => ?_⟩
  · simp [logged, recorded]
  · simp [logged, recorded, withStatus]
  · exact .deposit (a := ⟨a.token, env.sender, net, _, _, _⟩) hsender hcollect
      hfee rfl ⟨hle, hlt, hcount⟩

theorem claimRefund_change {b : TransferBehaviour}
    (h : Yields (d.claimRefund env token b) s () s') : SimpleChange d s s' := by
  simp only [claimRefund, requireAllowed, setPortal, yields_steps] at h
  obtain ⟨-, h⟩ := h
  obtain ⟨sent, s1, hsend, h⟩ := h.bind
  obtain ⟨rfl, hbalance⟩ := yields_tryTransfer hsend
  obtain ⟨rfl, h⟩ := yields_require_bind.mp h
  obtain rfl := yields_emit.mp h
  exact .claimRefund (hbalance rfl)

/-- An accepted batch passed every check and is entered as submitted. -/
theorem yields_submitBatch (h : Yields (d.submitBatch env a) s () s') :
    ∃ number hash t, t = d.settlementOf env s.portal a number hash ∧
      Settles d s.portal t a.signatures ∧
      s' = ({ s with portal := settle s.portal t } : L1 H).logged
        (.batchSubmitted (acceptedBatch s.portal t a.signatures)) := by
  have hrest := (yields_governed_check (Governance.readOnly_onlySequencer env) h).2
  simp only [yields_steps] at hrest
  obtain ⟨hprev, hanchored⟩ := hrest
  obtain ⟨⟨number, hash⟩, s1, hanchor, hsigned⟩ := hanchored.bind
  obtain rfl := yields_anchor hanchor
  obtain ⟨signed, s2, hverify, hchecks⟩ := hsigned.bind
  obtain ⟨rfl, hlast⟩ := yields_require_bind.mp hchecks
  obtain ⟨rfl, hheight, hquorum, hsigners⟩ := yields_verifySettlement hverify
  simp only [checkDepositTransition, checkTokenTransition, bind_assoc, setPortal, yields_steps,
    not_or, not_and, not_not, not_lt] at hlast
  obtain ⟨⟨hprevDeposit, hdeposit, hcount⟩, ⟨hprevToken, htoken, htokens⟩,
    houtstanding, -, -, hemit⟩ := hlast
  obtain rfl := yields_emit.mp hemit
  refine ⟨number, hash, _, rfl, ?_, rfl⟩
  exact
    { portal_eq := rfl
      zoneId_eq := rfl
      version_eq := rfl
      index_eq := rfl
      verifier_eq := rfl
      prevBlockHash_eq := hprev
      height_lt := hheight
      quorum := hquorum
      signers := hsigners
      prevDeposit_eq := hprevDeposit
      deposit_le := hdeposit
      deposit_le_count := hcount
      prevToken_eq := hprevToken
      token_le := htoken
      token_le_count := htokens
      token_outstanding := fun hinit hnext =>
        houtstanding (by simp [hinit]) hnext }

theorem SimpleCall.exec_change {c : SimpleCall H} (hsender : env.sender ≠ d.self)
    (h : Yields (c.exec d env) s () s') : SimpleChange d s s' := by
  cases c with
  | governance call =>
    obtain ⟨g, hcall, rfl⟩ := yields_focus.mp (yields_reads_bind.mp h)
    exact .governance hcall
  | enableToken token => exact enableToken_change h
  | deposit args | depositEncrypted args =>
    exact (yields_depositInternal (yields_governed_check
      (Governance.readOnly_whenNotPaused env) h).2).2.2.2 hsender
  | claimRefund token b => exact claimRefund_change h
  | submitBatch args =>
    obtain ⟨_, _, _, -, hsettles, rfl⟩ := yields_submitBatch h
    exact .submitBatch hsettles

/-! Caught calls and callbacks. -/

omit [Zero H] [DecidableEq H] in
/-- What is credited to the portal is entered as given. -/
theorem credited_self {balances : Address → Address → Nat} {given f : Address → Nat}
    (hf : f d.self = balances token d.self) (t : Address) :
    update balances token (credit f target amount) t d.self + given t =
      balances t d.self + credit given token (if target = d.self then amount else 0) t := by
  by_cases ht : t = token
  · rw [ht, update_self, credit_self]
    by_cases hself : target = d.self
    · rw [hself, if_pos rfl, credit_self, hf]
      omega
    · rw [if_neg hself, credit_of_ne _ (Ne.symm hself), hf, add_zero]
  · rw [update_of_ne ht, credit_of_ne _ ht]

theorem OuterAction.exec_change {a : OuterAction H}
    (h : Yields (a.exec d) s () s') : s' = s ∨ SimpleChange d s s' := by
  cases a with
  | call env c =>
    rcases yields_unlessSelf h with rfl | ⟨hsender, hc⟩
    · exact .inl rfl
    · exact .inr (c.exec_change hsender hc)
  | transfer token source target amount =>
    rw [OuterAction.exec, yields_reads_bind] at h
    rcases yields_ite.mp h with ⟨⟨hsource, -⟩, hmove⟩ | ⟨-, hnone⟩
    · obtain rfl := hmove.updates
      exact .inr (.donation (fun t => le_credit _ _ _ _)
        (credited_self (debit_of_ne _ (Ne.symm hsource) _)))
    · exact .inl (hnone.pure).2.symm
  | mint token target amount =>
    obtain rfl := h.updates
    exact .inr (.donation (fun t => le_credit _ _ _ _) (credited_self rfl))
  | burn token source amount =>
    rcases yields_ite.mp h with ⟨hsource, hburn⟩ | ⟨-, hnone⟩
    · obtain rfl := hburn.updates
      refine .inr (.donation (fun t => le_rfl) fun t => ?_)
      by_cases ht : t = token
      · rw [ht, update_self, debit_of_ne _ (Ne.symm hsource)]
      · rw [update_of_ne ht]
    · exact .inl (hnone.pure).2.symm

theorem SimpleChange.depositCount_le (h : SimpleChange d s s') :
    s'.portal.depositCount ≤ s.portal.depositCount + 1 := by
  cases h with
  | deposit => simp [withStatus, recorded, logged]
  | _ => exact Nat.le_succ _

/-- Each action of a callback makes at most one change. -/
theorem relayMessage_changes {r : Relay H} (h : Yields (d.relayMessage r) s () s') :
    SimpleChanges d s s' ∧ s'.portal.depositCount ≤ s.portal.depositCount + r.actions.length := by
  obtain ⟨⟨⟩, s1, hactions, hend⟩ := h.bind
  obtain ⟨-, rfl⟩ := yields_require.mp hend
  generalize r.actions = actions at hactions
  clear hend h
  induction actions generalizing s with
  | nil =>
    obtain ⟨-, rfl⟩ := hactions.pure
    exact ⟨.refl, le_rfl⟩
  | cons a rest ih =>
    obtain ⟨⟨⟩, s2, hfirst, hrest⟩ := hactions.bind
    obtain ⟨hchanges, hcount⟩ := ih hrest
    rw [List.length_cons]
    rcases a.exec_change hfirst with rfl | hchange
    · exact ⟨hchanges, by omega⟩
    · have hstep := hchange.depositCount_le
      exact ⟨.head hchange hchanges, by omega⟩

/-! Withdrawals. -/

/-- A delivered callback withdrawal: the amount goes to the messenger, then
the callback runs. -/
theorem deliverWithdrawal_changes {toMessenger : Reply} {relay : Relay H}
    (h : Yields (d.deliverWithdrawal env token target amount toMessenger relay) s () s') :
    amount ≤ s.balances token d.self ∧ ∃ messenger,
      Callback d (s.paid true token d.self messenger amount) s' ∧ s'.portal.depositCount ≤
          s.portal.depositCount + relay.actions.length := by
  simp only [deliverWithdrawal, yields_steps] at h
  obtain ⟨-, -, h⟩ := h
  obtain ⟨sent, s1, hsend, h⟩ := h.bind
  obtain ⟨rfl, hbalance⟩ := yields_transfer hsend
  obtain ⟨rfl, h⟩ := yields_require_bind.mp h
  rw [yields_setStatus_bind] at h
  obtain ⟨⟨⟩, s2, hrelay, h⟩ := h.bind
  simp only [yields_setStatus_bind, yields_steps] at h
  obtain ⟨-, rfl⟩ := h
  obtain ⟨hchanges, hcount⟩ := relayMessage_changes hrelay
  rw [withStatus_depositCount, paid_portal] at hcount
  exact ⟨hbalance rfl, _, .inr ⟨s2, hchanges, rfl⟩, hcount⟩

/-- How a withdrawal taken off the queue can have been sent. -/
theorem sendWithdrawal_changes {success : Bool}
    (h : Yields (d.sendWithdrawal env w b) s success s') :
    (success = true ∧ w.amount ≤ s.balances w.token d.self ∧ ∃ target,
      Callback d (s.paid true w.token d.self target w.amount) s' ∧ s'.portal.depositCount ≤
          s.portal.depositCount + b.relay.actions.length) ∨ (success = false ∧ s' = s) := by
  simp only [sendWithdrawal, yields_reads_bind, yields_ite] at h
  rcases h with ⟨-, h⟩ | ⟨-, ⟨-, h⟩ | ⟨-, h⟩⟩
  · obtain ⟨rfl, rfl⟩ := h.pure
    exact .inr ⟨rfl, rfl⟩
  · obtain ⟨rfl, hbalance⟩ := yields_tryTransferWhen h
    cases success with
    | true =>
      refine .inl ⟨rfl, hbalance rfl, _, .inl rfl, ?_⟩
      rw [paid_portal]
      exact Nat.le_add_right _ _
    | false => exact .inr ⟨rfl, rfl⟩
  · obtain ⟨outcome, s1, hcaught, hanswer⟩ := h.bind
    obtain ⟨hsuccess, rfl⟩ := hanswer.pure
    rcases yields_caught hcaught with ⟨⟨⟩, rfl, hd⟩ | ⟨⟨e, rfl⟩, rfl⟩
    · obtain ⟨hbalance, messenger, hcallback⟩ := deliverWithdrawal_changes hd
      exact .inl ⟨hsuccess.symm, hbalance, messenger, hcallback⟩
    · exact .inr ⟨hsuccess.symm, rfl⟩

/-- A refunded or parked deposit. -/
theorem processDepositBounceBack_taking {queue : WithdrawalQueue H}
    (hqueue : s.portal.withdrawalQueue.dequeue d.keccak w r = some queue)
    (hnonce : w.fallbackNonce = 0)
    (h : Yields (d.processDepositBounceBack env w b) (s.taken queue w) ()
      s') : ∃ o, Taking d w r o s s' ∧ finished w o s' = s' := by
  simp only [processDepositBounceBack, yields_reads_bind] at h
  obtain ⟨fee, hfee⟩ : ∃ fee, min (calculateBouncebackFee env
      (s.taken queue w).portal.governance) w.amount = fee := ⟨_, rfl⟩
  have hle : fee ≤ w.amount := hfee ▸ min_le_right _ _
  rw [hfee] at h
  obtain ⟨collected, s1, hcollect, hrest⟩ := h.bind
  obtain ⟨rfl, hpaid⟩ := yields_tryTransferWhen hcollect
  obtain ⟨success, s2, hsend, hlast⟩ := hrest.bind
  obtain ⟨rfl, hsent⟩ := yields_tryTransferWhen hsend
  cases success with
  | true =>
    obtain rfl := yields_emit.mp hlast
    exact ⟨_, .refund hqueue hnonce hle hpaid (hsent rfl), rfl⟩
  | false =>
    obtain ⟨⟨⟩, s3, hpark, hemit⟩ := hlast.bind
    obtain rfl := yields_parkRefund hpark
    obtain rfl := yields_emit.mp hemit
    rw [paid_portal, paid_portal]
    exact ⟨_, .park hqueue hnonce hle hpaid, rfl⟩

theorem Taking.depositCount {o : Outcome} (h : Taking d w r o s s') : s'.portal.depositCount =
      s.portal.depositCount + if o = .bouncedBack then 1 else 0 := by
  cases h <;> simp [taken, recorded, withRefund, logged]

/-- Processing one withdrawal: it is taken off the queue, its callback may
run if it is delivered, and its end is logged. -/
theorem processWithdrawal_taking (h : Yields (d.processWithdrawal env w r b) s () s') :
    ∃ o s1 s2, Taking d w r o s s1 ∧ Callback d s1 s2 ∧
      (o ≠ .delivered → s2 = s1) ∧ s' = finished w o s2 ∧ s'.portal.depositCount ≤
        s.portal.depositCount + (b.relay.actions.length + 1) := by
  simp only [processWithdrawal, emit, setPortal, yields_steps] at h
  obtain ⟨queue, hqueue, hrest⟩ := h
  rcases yields_ite.mp hrest with ⟨hnonce, hback⟩ | ⟨hnonce, huser⟩
  · obtain ⟨o, htaking, hend⟩ := processDepositBounceBack_taking hqueue hnonce hback
    refine ⟨o, s', s', htaking, .inl rfl, fun _ => rfl, hend.symm, ?_⟩
    rw [htaking.depositCount]
    split <;> omega
  obtain ⟨success, s1, hsend, hfinish⟩ := huser.bind
  obtain ⟨s2, hbounce, hemit⟩ := yields_when_bind.mp hfinish
  obtain rfl := yields_emit.mp hemit
  rcases sendWithdrawal_changes hsend with
    ⟨rfl, hbalance, target, hcallback, hcount⟩ | ⟨rfl, rfl⟩
  · obtain ⟨-, rfl⟩ := hbounce.pure
    exact ⟨_, _, _, .deliver hqueue hnonce hbalance, hcallback,
      fun hne => absurd rfl hne, rfl, Nat.le_succ_of_le hcount⟩
  · obtain ⟨hroom, newHash, hhash, rfl⟩ := yields_enqueueBounceBack hbounce
    have htaking := Taking.bounceBack (d := d) hqueue hnonce hhash
      ⟨hroom.processed_le, hroom.lt_maximum, hroom.count_lt⟩
    exact ⟨_, _, _, htaking, .inl rfl, fun _ => rfl, rfl,
      htaking.depositCount.le.trans (Nat.add_le_add_left (by simp) _)⟩

theorem finished_changes (w : Withdrawal) (o : Outcome) (s : L1 H) :
    Changes d s (finished w o s) := by
  cases o with
  | delivered | bouncedBack => exact .single .processed
  | refunded | parked => exact .refl

theorem processWithdrawal_changes (h : Yields (d.processWithdrawal env w r b) s () s') :
    Changes d s s' := by
  obtain ⟨o, s1, s2, htaking, hcallback, -, rfl, -⟩ := processWithdrawal_taking h
  exact (Relation.ReflTransGen.head (.taking htaking)
    hcallback.changes).trans (finished_changes w o s2)

theorem processWithdrawals_changes {ws : List (Withdrawal × WithdrawalBehaviour H)}
    (h : Yields (d.processWithdrawals env ws r) s () s') :
    Changes d s s' ∧ s'.portal.withdrawalReentrancyStatus = .notEntered := by
  have hsequencer := (yields_governed_check (Governance.readOnly_onlySequencer env) h).2
  have hpaused := (yields_governed_check (Governance.readOnly_whenNotPaused env) hsequencer).2
  simp only [unprocessedDeposits, bind_assoc, yields_steps, yields_setStatus_bind] at hpaused
  obtain ⟨-, -, -, hloop⟩ := hpaused
  obtain ⟨⟨⟩, s1, hpasses, hlast⟩ := hloop.bind
  obtain rfl := hlast.updates
  have hchanges : Changes d s s1 := Yields.forM_invariant (I := Changes d s)
      (fun x _ t t' ht hx => ht.trans (processWithdrawal_changes hx)) hpasses (.single (.status _))
  exact ⟨hchanges.tail (.status _), rfl⟩

/-- Every call of a portal is a sequence of elementary changes. -/
theorem Call.exec_changes {c : Call H} (h : Yields (c.exec d) s () s') : Changes d s s' := by
  cases c with
  | outer action =>
    rcases action.exec_change h with rfl | hchange
    · exact .refl
    · exact .single (.simple hchange)
  | processWithdrawals env ws r =>
    rcases yields_unlessSelf h with rfl | ⟨-, hrun⟩
    · exact .refl
    · exact (processWithdrawals_changes hrun).1

theorem Step.changes (h : Relation.ReflTransGen (Step d) s s') : Changes d s s' :=
  run_invariant (I := Changes d s) (fun _ _ ht ⟨c, hc⟩ => ht.trans (c.exec_changes hc)) h .refl

theorem Reachable.changes (h : Reachable d s) : ∃ s0, Initialized d s0 ∧ Changes d s0 s := by
  obtain ⟨s0, hinit, hrun⟩ := h
  exact ⟨s0, hinit, Step.changes hrun⟩

end Tempo.Zones
