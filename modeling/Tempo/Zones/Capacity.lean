/-
No withdrawal can block the queue.  The room reserved from public deposits is
enough for every withdrawal of a call to come back as a deposit, whatever the
callbacks before it deposited, so a call that passes the dequeue check runs to
its end and every withdrawal in it ends in one of four ways.
-/
import Tempo.Zones.Fifo

namespace Tempo.Zones

open WithdrawalQueue L1 Deployment Portal List Sample

variable {H : Type}

/-- Deposits the zone has not processed. -/
def Portal.unprocessed (p : Portal H) : Nat :=
  p.depositCount - p.lastProcessedDepositNumber

/-- The most deposits that can be unprocessed before a callback that stands
where `p` is ends. -/
def Portal.callbackBound (p : Portal H) : Nat :=
  if p.withdrawalReentrancyStatus = .callbackDepositAvailable then
    max (p.unprocessed + 1) (maxUnprocessedDeposits - withdrawalProcessingDepositReserve)
  else
    max p.unprocessed (maxUnprocessedDeposits - withdrawalProcessingDepositReserve)

theorem Portal.unprocessed_le_callbackBound (p : Portal H) : p.unprocessed ≤ p.callbackBound := by
  unfold callbackBound
  split <;> omega

theorem Portal.callbackBound_mono {p q : Portal H}
    (hstatus : q.withdrawalReentrancyStatus = p.withdrawalReentrancyStatus)
    (hle : q.unprocessed ≤ p.unprocessed) : q.callbackBound ≤ p.callbackBound := by
  unfold callbackBound
  rw [hstatus]
  split <;> omega

variable [Zero H] [DecidableEq H] {d : Deployment H}

/-! What callbacks can do to the room and to the refunds. -/

variable {s s' : L1 H} {w : Withdrawal} {r : H}

theorem SimpleChange.callbackBound (h : SimpleChange d s s')
    (hs : s.portal.lastProcessedDepositNumber ≤ s.portal.depositCount) :
    s'.portal.lastProcessedDepositNumber ≤ s'.portal.depositCount ∧
      s'.portal.callbackBound ≤ s.portal.callbackBound := by
  cases h with
  | deposit _ _ _ _ hroom =>
    obtain ⟨hle, hlt, -⟩ := hroom
    simp only [logged, recorded, withStatus, passedOn_portal, pulled_portal]
    refine ⟨by omega, ?_⟩
    simp only [callbackBound, unprocessed, depositStatus, depositMaximum] at hlt ⊢
    by_cases havailable : s.portal.withdrawalReentrancyStatus = .callbackDepositAvailable
    · simp only [havailable, if_true] at hlt ⊢
      rw [if_neg (by simp)]
      omega
    · simp only [havailable, if_false] at hlt ⊢
      omega
  | submitBatch hsettles =>
    have hprev := hsettles.prevDeposit_eq
    have hle := hsettles.deposit_le
    refine ⟨hsettles.deposit_le_count, ?_⟩
    refine callbackBound_mono rfl ?_
    simp only [unprocessed, logged, settle]
    omega
  | _ => exact ⟨hs, le_rfl⟩

theorem SimpleChanges.callbackBound (h : SimpleChanges d s s')
    (hs : s.portal.lastProcessedDepositNumber ≤ s.portal.depositCount) :
    s'.portal.lastProcessedDepositNumber ≤ s'.portal.depositCount ∧
      s'.portal.callbackBound ≤ s.portal.callbackBound := by
  induction h with
  | refl => exact ⟨hs, le_rfl⟩
  | tail _ hlast ih =>
    obtain ⟨hle, hbound⟩ := hlast.callbackBound ih.1
    exact ⟨hle, hbound.trans ih.2⟩

/-- A callback adds one deposit at most, or stays under the public cap. -/
theorem Callback.unprocessed_le (h : Callback d s s')
    (hs : s.portal.lastProcessedDepositNumber ≤ s.portal.depositCount) :
    s'.portal.lastProcessedDepositNumber ≤ s'.portal.depositCount ∧
      (s' = s ∨ s'.portal.unprocessed ≤ max (s.portal.unprocessed + 1)
        (maxUnprocessedDeposits - withdrawalProcessingDepositReserve)) := by
  rcases h with rfl | ⟨s1, hchanges, rfl⟩
  · exact ⟨hs, .inl rfl⟩
  · obtain ⟨hle, hbound⟩ := SimpleChanges.callbackBound hchanges hs
    exact ⟨hle, .inr (s1.portal.unprocessed_le_callbackBound.trans hbound)⟩

theorem SimpleChange.refunds_le (h : SimpleChange d s s') (token account : Address) :
    s'.portal.refunds token account ≤ s.portal.refunds token account := by
  cases h with
  | deposit => simp [withStatus, recorded, logged]
  | @claimRefund t a _ _ =>
    simp only [logged, paid_portal, withRefund]
    by_cases ht : token = t
    · by_cases ha : account = a <;> simp [ht, ha]
    · simp [ht]
  | _ => exact le_rfl

theorem Callback.refunds_le (h : Callback d s s') (token account : Address) :
    s'.portal.refunds token account ≤ s.portal.refunds token account := by
  rcases h with rfl | ⟨s1, hchanges, rfl⟩
  · exact le_rfl
  · exact run_invariant (I := fun t => t.portal.refunds token account ≤
      s.portal.refunds token account)
      (fun _ _ ht hc => (hc.refunds_le token account).trans ht) hchanges le_rfl

/-! Passes that do not fail. -/

omit [Zero H] [DecidableEq H] in
theorem runs_tryTransferWhen (allowed : Bool) (env : CallEnv H)
    (token to' : Address) (amount : Nat) (b : TransferBehaviour) (s : L1 H) :
    ∃ sent, Yields (d.tryTransferWhen allowed env token to' amount b) s sent
      (s.paid sent token d.self (env.resolveRecipient to') amount) := by
  obtain ⟨sent, s', hrun⟩ := (throws_tryTransferWhen (d := d) allowed env token to' amount b).runs s
  obtain ⟨rfl, -⟩ := yields_tryTransferWhen hrun
  exact ⟨sent, hrun⟩

theorem runs_sendWithdrawal (env : CallEnv H) (w : Withdrawal)
    (b : WithdrawalBehaviour H) (s : L1 H) : Runs (d.sendWithdrawal env w b) s := by
  exact (throws_sendWithdrawal env w b).runs s

omit [Zero H] [DecidableEq H] in
theorem runs_enqueueBounceBack (token : Address) (amount : Nat)
    (nonce : BitVec 64) (h : DepositRoom s.portal maxUnprocessedDeposits) :
    Runs (d.enqueueBounceBack token amount nonce) s := by
  unfold enqueueBounceBack recordDeposit unprocessedDeposits
  simp only [bind_assoc, runs_reads_bind, runs_require_bind, setPortal, emit,
    runs_updates_bind, pure_bind]
  exact ⟨h.processed_le, h.lt_maximum, h.count_lt, runs_updates⟩

omit [Zero H] [DecidableEq H] in
theorem runs_processDepositBounceBack (env : CallEnv H) (b : WithdrawalBehaviour H)
    (h : s.portal.refunds w.token w.to' + w.amount < 2 ^ 128) :
    Runs (d.processDepositBounceBack env w b) s := by
  unfold processDepositBounceBack
  rw [runs_reads_bind]
  obtain ⟨collected, hcollect⟩ := runs_tryTransferWhen (d := d)
    (min (calculateBouncebackFee env s.portal.governance) w.amount > 0) env
    w.token s.portal.governance.admin
    (min (calculateBouncebackFee env s.portal.governance) w.amount) b.feeTransfer s
  refine hcollect.runs_bind ?_
  obtain ⟨success, hsend⟩ := runs_tryTransferWhen (d := d)
    (s.portal.governance.isAllowed w.to') env w.token w.to' _ b.transfer _
  refine hsend.runs_bind ?_
  rw [runs_ite]
  refine ⟨fun _ => runs_updates, fun _ => ?_⟩
  unfold parkRefund
  simp only [bind_assoc, runs_reads_bind, runs_require_bind, setPortal, emit,
    runs_updates_bind, paid_portal]
  exact ⟨by omega, runs_updates⟩

/-- A pass runs to its end when its withdrawal is at the head of the queue,
there is room to bounce it back, and its refund fits the counter. -/
theorem runs_processWithdrawal (env : CallEnv H) (b : WithdrawalBehaviour H)
    {queue : WithdrawalQueue H}
    (hqueue : s.portal.withdrawalQueue.dequeue d.keccak w r = some queue)
    (hroom : DepositRoom s.portal maxUnprocessedDeposits) (hrefund : w.fallbackNonce = 0 →
      s.portal.refunds w.token w.to' + w.amount < 2 ^ 128) :
    Runs (d.processWithdrawal env w r b) s := by
  unfold processWithdrawal
  rw [runs_reads_bind, runs_orFail_bind]
  refine ⟨queue, hqueue, ?_⟩
  simp only [setPortal, emit, runs_updates_bind]
  rw [runs_ite]
  refine ⟨fun hnonce => runs_processDepositBounceBack env b (hrefund hnonce), fun _ => ?_⟩
  obtain ⟨success, s1, hsend⟩ := runs_sendWithdrawal (d := d) env w b (s.taken queue w)
  refine Yields.runs_bind hsend ?_
  rw [runs_ite]
  refine ⟨fun hfailed => ?_, fun _ => runs_updates⟩
  rcases sendWithdrawal_changes hsend with ⟨rfl, -⟩ | ⟨-, rfl⟩
  · exact absurd rfl hfailed
  · obtain ⟨⟨⟩, s2, hbounce⟩ := runs_enqueueBounceBack (d := d) w.token
      w.amount w.fallbackNonce (s := s.taken queue w)
      ⟨hroom.processed_le, hroom.lt_maximum, hroom.count_lt⟩
    exact hbounce.runs_bind runs_updates

/-! Whole calls. -/

/-- What a withdrawal can add to the refunds of an account. -/
def refundDue (w : Withdrawal) (token account : Address) : Nat :=
  if w.fallbackNonce = 0 ∧ w.token = token ∧ w.to' = account then w.amount
  else 0

def refundTotal (ws : List Withdrawal) (token account : Address) : Nat :=
  (ws.map (refundDue · token account)).sum

/-- The deposits a call can make: one for each withdrawal, and one for each
action of a callback. -/
def depositTotal (ws : List (Withdrawal × WithdrawalBehaviour H)) : Nat :=
  (ws.map fun x => x.2.relay.actions.length + 1).sum

variable {o : Outcome} {ws : List (Withdrawal × WithdrawalBehaviour H)}

theorem Taking.refunds_le (h : Taking d w r o s s') (token account : Address) :
    s'.portal.refunds token account ≤ s.portal.refunds token account +
      refundDue w token account := by
  cases h with
  | park _ hnonce =>
    simp only [logged, withRefund, paid_portal, taken, refundDue]
    by_cases ht : token = w.token
    · by_cases ha : account = w.to'
      · simp only [ht, ha, hnonce, Function.update_self, and_self, if_true]
        omega
      · simp [ht, ha]
    · simp [ht]
  | _ => simp [taken, recorded, logged]

theorem Taking.unprocessed_le (h : Taking d w r o s s')
    (hs : s.portal.lastProcessedDepositNumber ≤ s.portal.depositCount) :
    s'.portal.lastProcessedDepositNumber ≤ s'.portal.depositCount ∧
      s'.portal.unprocessed ≤ s.portal.unprocessed + 1 ∧
      (o ≠ .bouncedBack → s'.portal.unprocessed = s.portal.unprocessed) := by
  cases h with
  | bounceBack =>
    simp only [unprocessed, taken, recorded, logged]
    exact ⟨by omega, by omega, fun h => absurd rfl h⟩
  | _ => simpa [unprocessed, taken, withRefund, logged] using hs

/-- Everything the passes over `rest` still need. -/
structure Ready (d : Deployment H) (r : H)
    (rest : List (Withdrawal × WithdrawalBehaviour H)) (s : L1 H) : Prop where
  clean : s.portal.withdrawalQueue.Clean
  fits : rest ≠ [] → HashChain.wrap d.keccak.withdrawal r (rest.map (·.1)) =
    s.portal.withdrawalQueue.slots s.portal.withdrawalQueue.head
  processed_le : s.portal.lastProcessedDepositNumber ≤ s.portal.depositCount
  room : s.portal.unprocessed + rest.length ≤ maxUnprocessedDeposits
  short : rest.length ≤ withdrawalProcessingDepositReserve
  count : s.portal.depositCount + depositTotal rest < 2 ^ 64
  refunds : ∀ token account, s.portal.refunds token account +
    refundTotal (rest.map (·.1)) token account < 2 ^ 128

/-- A pass leaves everything the next ones need. -/
theorem Ready.pass (hne : ∀ w tail, d.keccak.withdrawal w tail ≠ 0)
    {x : Withdrawal × WithdrawalBehaviour H} {rest : List (Withdrawal × WithdrawalBehaviour H)}
    (h : Ready d r (x :: rest) s) (env : CallEnv H) :
    ∃ s', Yields (d.processWithdrawal env x.1 (HashChain.wrap
      d.keccak.withdrawal r (rest.map (·.1))) x.2) s () s' ∧ Ready d r rest s' := by
  have hroom := h.room
  have hshort := h.short
  have hcount := h.count
  rw [length_cons] at hroom hshort
  rw [depositTotal, map_cons, sum_cons] at hcount
  obtain ⟨queue, hqueue⟩ := dequeue_of_fits (h.fits (cons_ne_nil _ _))
  have hrefund : x.1.fallbackNonce = 0 →
      s.portal.refunds x.1.token x.1.to' + x.1.amount < 2 ^ 128 := by
    intro hnonce
    have htotal := h.refunds x.1.token x.1.to'
    rw [refundTotal, map_cons, map_cons, sum_cons, refundDue, if_pos ⟨hnonce, rfl, rfl⟩] at htotal
    omega
  obtain ⟨⟨⟩, s', hyields⟩ := runs_processWithdrawal (d := d) env x.2 hqueue
    ⟨h.processed_le, by unfold unprocessed at hroom; omega, by omega⟩ hrefund
  refine ⟨s', hyields, ?_⟩
  obtain ⟨o, s1, s2, htaking, hcallback, hquiet, rfl, hdeposits⟩ := processWithdrawal_taking hyields
  rw [finished_portal] at hdeposits
  obtain ⟨hdequeue, -, -⟩ := htaking.queue
  obtain ⟨hext, hclean⟩ := hcallback.queue_extends (h.clean.dequeue hne hdequeue)
  obtain ⟨hle1, hun1, hsame⟩ := htaking.unprocessed_le h.processed_le
  obtain ⟨hle2, hun2⟩ := hcallback.unprocessed_le hle1
  -- only a delivered withdrawal runs a callback, and it takes no room itself
  have hunprocessed : s2.portal.unprocessed ≤ max (s.portal.unprocessed + 1)
      (maxUnprocessedDeposits - withdrawalProcessingDepositReserve) := by
    by_cases ho : o = .delivered
    · have hsame := hsame (by simp [ho])
      rcases hun2 with rfl | hun2 <;> omega
    · rw [hquiet ho]
      omega
  refine ⟨?_, ?_, ?_, ?_, by omega, ?_, fun token account => ?_⟩
  all_goals rw [finished_portal]
  · exact hclean
  · intro hrest
    exact fits_of_dequeue hne h.clean hdequeue hext (by simpa using hrest)
  · exact hle2
  · omega
  · unfold depositTotal
    omega
  · have hbefore := h.refunds token account
    have htaken : s1.portal.refunds token account ≤ s.portal.refunds token
        account + refundDue x.1 token account := htaking.refunds_le token account
    have hlowered := hcallback.refunds_le token account
    rw [refundTotal, map_cons, map_cons, sum_cons] at hbefore
    unfold refundTotal
    omega

/-- A call that is ready runs to its end. -/
theorem Ready.runs (hne : ∀ w tail, d.keccak.withdrawal w tail ≠ 0)
    (h : Ready d r ws s) (env : CallEnv H) : ∃ s', Yields (d.processAll env ws r) s () s' := by
  induction ws generalizing s with
  | nil => exact ⟨s, yields_pure.mpr ⟨rfl, rfl⟩⟩
  | cons x rest ih =>
    obtain ⟨s1, hfirst, hready⟩ := h.pass hne env
    obtain ⟨s', hrest⟩ := ih hready
    exact ⟨s', yields_bind.mpr ⟨⟨⟩, s1, hfirst, hrest⟩⟩

/-! How withdrawals end. -/

/-- The events that tell what became of a withdrawal. -/
def PortalEvent.isEnding : PortalEvent H → Bool
  | dequeued .. | withdrawalBounceBack .. | withdrawalProcessed ..
  | depositBounceBack .. | depositBounceBackPending .. => true
  | _ => false

def L1.endings (s : L1 H) : List (PortalEvent H) :=
  s.log.filter (·.isEnding)

/-- The events of a withdrawal that ended in one of the four ways. -/
inductive EndsIn (w : Withdrawal) : Outcome → List (PortalEvent H) → Prop
  | delivered : EndsIn w .delivered
      [.dequeued w, .withdrawalProcessed w.to' w.senderTag w.token w.amount true]
  | bouncedBack (newHash : H) (number : Nat) : EndsIn w .bouncedBack
      [.dequeued w, .withdrawalBounceBack newHash w.fallbackNonce w.token w.amount number,
        .withdrawalProcessed w.to' w.senderTag w.token w.amount false]
  | refunded {amount fee : Nat} (hamount : amount + fee = w.amount) :
      EndsIn w .refunded [.dequeued w, .depositBounceBack w.to' w.token amount fee]
  | parked {amount fee : Nat} (hamount : amount + fee = w.amount) :
      EndsIn w .parked [.dequeued w, .depositBounceBackPending w.to' w.token amount fee]

omit [Zero H] [DecidableEq H] in
theorem EndsIn.unique {o' : Outcome} {events : List (PortalEvent H)}
    (h : EndsIn w o events) (h' : EndsIn w o' events) : o = o' := by
  cases h <;> cases h' <;> rfl

theorem SimpleChange.endings (h : SimpleChange d s s') : s'.endings = s.endings := by
  cases h with
  | deposit | enableToken | claimRefund | submitBatch =>
    simp [L1.endings, withStatus, recorded, withToken, withRefund, logged, PortalEvent.isEnding]
  | _ => rfl

theorem Callback.endings (h : Callback d s s') : s'.endings = s.endings := by
  rcases h with rfl | ⟨s1, hchanges, rfl⟩
  · rfl
  · exact run_invariant (I := fun t => t.endings = s.endings)
      (fun _ _ ht hc => hc.endings.trans ht) hchanges rfl

/-- What a withdrawal taken off the queue adds to the log in the end. -/
theorem Taking.endings {s1 s2 : L1 H} (h : Taking d w r o s s1) (hsame : s2.endings = s1.endings) :
    ∃ events, EndsIn w o events ∧ (finished w o s2).endings = s.endings ++ events := by
  have hkept (collected : Bool) {fee : Nat} (hfee : fee ≤ w.amount) :
      w.amount - (if collected then fee else 0) + (if collected then fee else 0) = w.amount := by
    split <;> omega
  have hlast : (finished w o s2).endings = (finished w o s1).endings := by
    cases o <;> simpa [L1.endings, finished, logged] using hsame
  rw [hlast]
  cases h with
  | deliver =>
    refine ⟨_, .delivered, ?_⟩
    simp [L1.endings, finished, logged, taken, PortalEvent.isEnding]
  | @bounceBack _ newHash =>
    refine ⟨_, .bouncedBack newHash (s.portal.depositCount + 1), ?_⟩
    simp [L1.endings, finished, logged, taken, recorded, PortalEvent.isEnding]
  | @refund _ _ collected _ _ _ _ _ hfee =>
    refine ⟨_, .refunded (hkept collected hfee), ?_⟩
    simp [L1.endings, finished, logged, taken, PortalEvent.isEnding]
  | @park _ _ collected _ _ _ _ hfee =>
    refine ⟨_, .parked (hkept collected hfee), ?_⟩
    simp [L1.endings, finished, logged, taken, withRefund, PortalEvent.isEnding]

/-- The withdrawals of a call are taken off the queue one after the other, with
what becomes of each and what its callback does. -/
inductive Passes (d : Deployment H) (r : H) : List (Withdrawal × WithdrawalBehaviour H) →
    List Outcome → L1 H → L1 H → Prop
  | nil {s : L1 H} : Passes d r [] [] s s
  | cons {x : Withdrawal × WithdrawalBehaviour H} {rest o outcomes} {s s₁ s₂ s' : L1 H}
    (htaking : Taking d x.1 (HashChain.wrap d.keccak.withdrawal r (rest.map (·.1))) o s s₁)
    (hcallback : Callback d s₁ s₂) (hrest : Passes d r rest outcomes (finished x.1 o s₂) s') :
    Passes d r (x :: rest) (o :: outcomes) s s'

/-- Every withdrawal of a call that runs to its end has its own entries in
the log, in the order of the array. -/
theorem processAll_endings {env : CallEnv H} (h : Yields (d.processAll env ws r) s () s') :
    ∃ entries : List (Outcome × List (PortalEvent H)),
      List.Forall₂ (fun x e => ∀ o, EndsIn x.1 o e.2 ↔ o = e.1) ws entries ∧
      Passes d r ws (entries.map Prod.fst) s s' ∧
      s'.endings = s.endings ++ entries.flatMap Prod.snd := by
  induction ws generalizing s with
  | nil =>
    obtain ⟨-, rfl⟩ := h.pure
    exact ⟨[], .nil, .nil, by simp⟩
  | cons x rest ih =>
    obtain ⟨⟨⟩, s1, hfirst, hrest⟩ := h.bind
    obtain ⟨o, t1, t2, htaking, hcallback, -, rfl, -⟩ := processWithdrawal_taking hfirst
    obtain ⟨events, hends, hlog⟩ := htaking.endings hcallback.endings
    obtain ⟨entries, hentries, hpasses, hall⟩ := ih hrest
    refine ⟨(o, events) :: entries, .cons (fun o' => ⟨fun h' => h'.unique hends, ?_⟩) hentries,
      .cons htaking hcallback hpasses, ?_⟩
    · rintro rfl
      exact hends
    · rw [hall, hlog, flatMap_cons, append_assoc]

/-! Every point of a history. -/

/-- The queue is clean and the deposits within their bound. -/
structure InCapacity (p : Portal H) : Prop where
  clean : p.withdrawalQueue.Clean
  processed_le : p.lastProcessedDepositNumber ≤ p.depositCount
  unprocessed_le : p.unprocessed ≤ maxUnprocessedDeposits

theorem depositMaximum_le (status : WithdrawalStatus) :
    depositMaximum status ≤ maxUnprocessedDeposits := by
  unfold depositMaximum
  split <;> omega

theorem Change.inCapacity (hne : ∀ w tail, d.keccak.withdrawal w tail ≠ 0)
    (h : Change d s s') (hs : InCapacity s.portal) : InCapacity s'.portal := by
  cases h with
  | simple hsimple =>
    obtain ⟨hclean, hle, hun⟩ := hs
    cases hsimple with
    | deposit _ _ _ _ hroom =>
      have hlt := hroom.lt_maximum
      have hmax := depositMaximum_le s.portal.withdrawalReentrancyStatus
      refine ⟨by simpa [withStatus, recorded, logged] using hclean, ?_, ?_⟩
      all_goals simp only [unprocessed, logged, recorded, withStatus,
        passedOn_portal, pulled_portal]
      all_goals omega
    | submitBatch hsettles =>
      have hprev := hsettles.prevDeposit_eq
      have hnext := hsettles.deposit_le
      refine ⟨hclean.enqueue _, hsettles.deposit_le_count, ?_⟩
      simp only [unprocessed, logged, settle] at hun ⊢
      omega
    | _ => exact ⟨hclean, hle, hun⟩
  | taking htaking =>
    obtain ⟨hle, -, hsame⟩ := htaking.unprocessed_le hs.processed_le
    refine ⟨hs.clean.dequeue hne htaking.queue.1, hle, ?_⟩
    cases htaking with
    | bounceBack _ _ _ hroom =>
      have hlt := hroom.lt_maximum
      simp only [unprocessed, logged, recorded, taken]
      omega
    | _ => exact (hsame (by simp)).le.trans hs.unprocessed_le
  | processed => exact hs
  | status => exact ⟨hs.clean, hs.processed_le, hs.unprocessed_le⟩

theorem Initialized.inCapacity (hne : ∀ w tail, d.keccak.withdrawal w tail ≠ 0)
    {s0 : L1 H} (hinit : Initialized d s0) (hchanges : Changes d s0 s) : InCapacity s.portal := by
  refine run_invariant (I := fun t => InCapacity t.portal)
    (fun _ _ ht hc => hc.inCapacity hne ht) hchanges ?_
  obtain ⟨balances, g, zoneId, messenger, verifier, t, -, rfl⟩ := hinit.exists_eq
  exact ⟨(represents_empty d.keccak).clean, le_rfl, Nat.zero_le _⟩

/-! Between calls no withdrawal is being processed. -/

theorem SimpleChange.status_eq (h : SimpleChange d s s')
    (hs : s.portal.withdrawalReentrancyStatus = .notEntered) :
    s'.portal.withdrawalReentrancyStatus = .notEntered := by
  cases h with
  | deposit => simp [logged, recorded, withStatus, depositStatus, hs]
  | _ => exact hs

theorem Call.exec_status {c : Call H} (h : Yields (c.exec d) s () s')
    (hs : s.portal.withdrawalReentrancyStatus = .notEntered) :
    s'.portal.withdrawalReentrancyStatus = .notEntered := by
  cases c with
  | outer action =>
    rcases action.exec_change h with rfl | hchange
    · exact hs
    · exact hchange.status_eq hs
  | processWithdrawals env ws r =>
    rcases yields_unlessSelf h with rfl | ⟨-, hrun⟩
    · exact hs
    · exact (processWithdrawals_changes hrun).2

theorem Reachable.status_eq (h : Reachable d s) :
    s.portal.withdrawalReentrancyStatus = .notEntered := by
  obtain ⟨s0, hinit, hrun⟩ := h
  refine run_invariant (I := fun t =>
    t.portal.withdrawalReentrancyStatus = .notEntered)
    (fun _ _ ht ⟨c, hc⟩ => c.exec_status hc ht) hrun ?_
  obtain ⟨balances, g, zoneId, messenger, verifier, t, -, rfl⟩ := hinit.exists_eq
  rfl

/-- Where no callback may use the reserve, a deposit stays under the public
cap. -/
theorem depositInternal_unprocessed_le {env : CallEnv H} {a : DepositArgs}
    (h : Yields (d.depositInternal env a) s () s')
    (hs : s.portal.withdrawalReentrancyStatus ≠ .callbackDepositAvailable) :
    s'.portal.unprocessed ≤ maxUnprocessedDeposits - withdrawalProcessingDepositReserve := by
  obtain ⟨hroom, hcount, hlast, -⟩ := yields_depositInternal h
  have hlt := hroom.lt_maximum
  have hle := hroom.processed_le
  rw [depositMaximum, if_neg hs] at hlt
  rw [unprocessed, hcount, hlast]
  omega

/-- A call within the capacity whose withdrawals stand at the head of the
queue goes through, whatever tokens, messenger and callbacks do, and each of
its withdrawals ends in exactly one way, by the log and by the balances.  At no
point of a history are more than 230 deposits unprocessed; a deposit outside a
callback leaves at most 210. -/
theorem withdrawals_never_blocked (hne : ∀ w tail, d.keccak.withdrawal w tail ≠ 0) :
    (∀ (env : CallEnv H) (s : L1 H) (ws : List (Withdrawal × WithdrawalBehaviour H)) (r : H),
      s.portal.withdrawalQueue.Clean → Enters env s ws.length → ws.length ≤ 20 →
      (ws ≠ [] → HashChain.wrap d.keccak.withdrawal r (ws.map (·.1)) =
        s.portal.withdrawalQueue.slots s.portal.withdrawalQueue.head) →
      s.portal.depositCount + depositTotal ws < 2 ^ 64 →
      (∀ token account, s.portal.refunds token account +
        refundTotal (ws.map (·.1)) token account < 2 ^ 128) →
      ∃ s₁, Yields (d.processWithdrawals env ws r) s () (s₁.withStatus .notEntered) ∧
        ∃ entries : List (Outcome × List (PortalEvent H)),
          List.Forall₂ (fun x e => ∀ o, EndsIn x.1 o e.2 ↔ o = e.1) ws entries ∧
          Passes d r ws (entries.map Prod.fst) (s.withStatus .processing) s₁ ∧
          s₁.endings = s.endings ++ entries.flatMap Prod.snd) ∧
    (∀ s₀ s, Initialized d s₀ → Changes d s₀ s →
      s.portal.withdrawalQueue.Clean ∧ s.portal.unprocessed ≤ 230) ∧
    (∀ s, Reachable d s → s.portal.withdrawalReentrancyStatus = .notEntered) ∧
    (∀ (env : CallEnv H) (a : DepositArgs) (s s' : L1 H),
      s.portal.withdrawalReentrancyStatus ≠ .callbackDepositAvailable →
      Yields (d.deposit env a) s () s' ∨ Yields (d.depositEncrypted env a) s () s' →
      s'.portal.unprocessed ≤ 210) := by
  refine ⟨?_, ?_, fun s hs => hs.status_eq, ?_⟩
  · intro env s ws r hclean henter hshort hfits hcount hrefunds
    have hready : Ready d r ws (s.withStatus .processing) :=
      { clean := hclean
        fits := hfits
        processed_le := henter.processed_le
        room := henter.capacity
        short := hshort
        count := hcount
        refunds := hrefunds }
    obtain ⟨s₁, hall⟩ := hready.runs hne env
    refine ⟨s₁, ?_, processAll_endings hall⟩
    have hrun : Yields (d.processAll env ws r >>= fun _ => setStatus .notEntered)
        (s.withStatus .processing) () (s₁.withStatus .notEntered) :=
      yields_bind.mpr ⟨⟨⟩, s₁, hall, yields_updates.mpr rfl⟩
    rwa [Yields, henter.run_eq]
  · intro s₀ s hinit hchanges
    have hcapacity := hinit.inCapacity hne hchanges
    exact ⟨hcapacity.clean, hcapacity.unprocessed_le⟩
  · rintro env a s s' hstatus (h | h)
    all_goals exact depositInternal_unprocessed_le (yields_governed_check
      (Governance.readOnly_whenNotPaused env) h).2 hstatus

theorem withdrawals_never_blocked_settled : (∃ s', Yields ((deployment [batchDigest
        queued]).processWithdrawals (env sequencer)
          (queued.map (·, behaviour)) 0) (settled queued) () s') ∧
      (settled queued).portal.unprocessed ≤ 230 := by
  have hall := withdrawals_never_blocked (d := deployment [batchDigest queued])
    termKeccak_collisionFree.withdrawal.ne_zero
  obtain ⟨s₀, hinit, hchanges⟩ := (reachable_settled queued (by decide +kernel)).changes
  obtain ⟨hclean, hle⟩ := hall.2.1 _ _ hinit hchanges
  have hrefunds : ∀ token account, (settled queued).portal.refunds token account +
        refundTotal queued token account < 2 ^ 128 := by
    intro token account
    have hzero : (settled queued).portal.refunds token account =
        0 := by rfl
    rw [hzero]
    simp [refundTotal, refundDue, queued, withdrawal]
  obtain ⟨s', hrun, -⟩ := hall.1 (env sequencer) (settled queued) (queued.map (·, behaviour)) 0
    hclean
    ⟨by decide +kernel, by decide +kernel, by decide +kernel,
      by decide +kernel, by decide +kernel⟩
    (by decide) (fun _ => by decide +kernel) (by decide +kernel) hrefunds
  exact ⟨⟨_, hrun⟩, hle⟩

/-! A portal filled up to the public cap, whose first withdrawal has a
callback that deposits. -/

namespace Sample

def depositArgs : DepositArgs where
  token
  amount := 1
  keyIndex := 0
  encrypted := ⟨1, 2, replicate 64 0, 0, 0⟩
  tempoRefundRecipient := user
  collect := .returns true
  feeTransfer := .returns true

/-- What such a call puts in the queue. -/
def deposited : Deposit where
  token
  sender := user
  amount := 1
  tempoRefundRecipient := user
  keyIndex := 0
  encrypted := ⟨1, 2, replicate 64 0, 0, 0⟩

def depositing : OuterAction Term := .call (env user) (.deposit depositArgs)

def callbackWithdrawal : Withdrawal := { withdrawal 1 with gasLimit := 100 }

def returning : WithdrawalBehaviour Term :=
  { behaviour with relay := ⟨[depositing], false⟩ }

def filled : L1 Term :=
  (deployment [batchDigest [callbackWithdrawal]]).history
    (initial [batchDigest [callbackWithdrawal]]) (.outer (.call (env sequencer)
        (.submitBatch (batchArgs [callbackWithdrawal]))) :: .outer (.call (env sequencer)
        (.governance (.setSequencerEncryptionKey 1 2 0 0 0))) :: replicate 210 (.outer depositing))

theorem reachable_filled : Reachable (deployment [batchDigest [callbackWithdrawal]]) filled :=
  Reachable.history ⟨_, initialized _, .refl⟩ _

end Sample

set_option maxRecDepth 100000 in
/-- The callback's deposit goes through and is the 211th unprocessed one. -/
theorem callback_deposit_exceeds_cap : Reachable (deployment [batchDigest
        [callbackWithdrawal]]) filled ∧
      filled.portal.unprocessed = 210 ∧
      (let s' := finalState ((deployment [batchDigest
          [callbackWithdrawal]]).processWithdrawals
        (env sequencer)
        [(callbackWithdrawal, returning)] 0) filled
      s'.portal.unprocessed = 211 ∧ s'.deposits.getLast? = some (.deposit deposited)) :=
  ⟨reachable_filled, by decide +kernel, by decide +kernel⟩

end Tempo.Zones
