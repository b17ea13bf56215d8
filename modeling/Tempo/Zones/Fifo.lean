/-
Withdrawals leave the portal as one queue.  Whatever calls are made, the
withdrawals dequeued so far and the lists the queue represents make up the
lists of the accepted batches, and a call passes the dequeue check exactly
when it continues the oldest list.
-/
import Tempo.Zones.Settlement
import Tempo.Library.Wp

namespace Tempo.Zones

open WithdrawalQueue L1 Deployment Throws PortalEvent List Sample

/-! The lists that remain of the settled ones. -/

/-- The non-empty lists with the first `n` withdrawals taken off. -/
def remaining (lists : List (List Withdrawal)) (n : Nat) : List (List Withdrawal) :=
  dropFront^[n] (lists.filter (· ≠ []))

theorem remaining_succ (lists : List (List Withdrawal)) (n : Nat) :
    remaining lists (n + 1) = dropFront (remaining lists n) := Function.iterate_succ_apply' _ _ _

variable {pending : List (List Withdrawal)}

theorem dropFront_append (hne : pending ≠ []) (ws : List Withdrawal) :
    dropFront (pending ++ [ws]) = dropFront pending ++ [ws] := by
  cases pending with
  | nil => exact absurd rfl hne
  | cons front rest =>
    simp only [cons_append, dropFront]
    split <;> rfl

theorem flatten_dropFront (pending : List (List Withdrawal)) (h : ∀ ws ∈ pending, ws ≠ []) :
    (dropFront pending).flatten = pending.flatten.tail ∧ ∀ ws ∈ dropFront pending, ws ≠ [] := by
  cases pending with
  | nil => exact ⟨rfl, h⟩
  | cons front rest =>
    obtain ⟨hfront, hrest⟩ := forall_mem_cons.mp h
    cases front with
    | nil => exact absurd rfl hfront
    | cons w ws =>
      rw [dropFront_cons]
      by_cases hws : ws = []
      · rw [if_pos hws, hws]
        exact ⟨rfl, hrest⟩
      · rw [if_neg hws]
        exact ⟨rfl, forall_mem_cons.mpr ⟨hws, hrest⟩⟩

theorem flatten_remaining (lists : List (List Withdrawal)) (n : Nat) :
    (remaining lists n).flatten = lists.flatten.drop n ∧ ∀ ws ∈ remaining lists n, ws ≠ [] := by
  induction n with
  | zero =>
    refine ⟨?_, fun ws hws => ?_⟩
    · induction lists with
      | nil => rfl
      | cons ws rest ih =>
        by_cases hnil : ws = [] <;> simpa [remaining, hnil] using ih
    · simpa using (mem_filter.mp hws).2
  | succ n ih =>
    rw [remaining_succ]
    obtain ⟨hflat, hne⟩ := flatten_dropFront _ ih.2
    rw [hflat, ih.1, tail_drop]
    exact ⟨rfl, hne⟩

/-- A new list goes to the end, while the others are not used up. -/
theorem remaining_concat (lists : List (List Withdrawal))
    (ws : List Withdrawal) {n : Nat} (hn : n ≤ lists.flatten.length) :
    remaining (lists ++ [ws]) n = pushBatch (remaining lists n) ws := by
  induction n with
  | zero =>
    unfold remaining pushBatch
    by_cases hws : ws = [] <;> simp [hws]
  | succ n ih =>
    rw [remaining_succ, remaining_succ, ih (by omega)]
    have hne : remaining lists n ≠ [] := by
      intro hnil
      have hflat := (flatten_remaining lists n).1
      rw [hnil, flatten_nil] at hflat
      have := drop_eq_nil_iff.mp hflat.symm
      omega
    unfold pushBatch
    split
    · rfl
    · exact dropFront_append hne ws

/-! The queue along a run. -/

variable {H : Type} [Zero H] [DecidableEq H] {d : Deployment H}
  {s s' : L1 H} {ws : List (Withdrawal × WithdrawalBehaviour H)} {r : H}
  {P : PortalError → Prop} {w : Withdrawal}

theorem SimpleChange.queue (h : SimpleChange d s s') :
    (∃ b : AcceptedBatch H, s'.batches = s.batches ++ [b] ∧
      s'.portal.withdrawalQueue = s.portal.withdrawalQueue.enqueue
        b.settlement.withdrawalQueueHash ∧ s'.dequeued = s.dequeued) ∨ s'.batches = s.batches ∧
      s'.portal.withdrawalQueue = s.portal.withdrawalQueue ∧ s'.dequeued = s.dequeued := by
  cases h with
  | submitBatch hsettles =>
    refine .inl ⟨_, batches_batchSubmitted _ _, rfl, ?_⟩
    simp [L1.dequeued, logged, dequeued?]
  | deposit | enableToken | claimRefund =>
    right
    simp [L1.batches, L1.dequeued, withStatus, recorded, withToken, withRefund, logged,
      batch?, dequeued?]
  | governance | donation => exact .inr ⟨rfl, rfl, rfl⟩

theorem Taking.queue {o : Outcome} (h : Taking d w r o s s') :
    s.portal.withdrawalQueue.dequeue d.keccak w r = some s'.portal.withdrawalQueue ∧
      s'.dequeued = s.dequeued ++ [w] ∧ s'.batches = s.batches := by
  cases h with
  | deliver hqueue | bounceBack hqueue | refund hqueue | park hqueue =>
    refine ⟨hqueue.trans ?_, ?_, ?_⟩
    all_goals simp [L1.batches, L1.dequeued, taken, recorded, withRefund, logged, batch?, dequeued?]

/-- Whatever lists the accepted batches carry, what was dequeued is their
front part and the queue holds the rest. -/
def IsFifo (d : Deployment H) (s : L1 H) : Prop :=
  ∀ lists : List (List Withdrawal), s.batches.map (·.settlement.withdrawalQueueHash) =
        lists.map (queueHash d.keccak) → lists.flatten = s.dequeued ++
          (remaining lists s.dequeued.length).flatten ∧ s.portal.withdrawalQueue.Represents d.keccak
          (remaining lists s.dequeued.length)

theorem Change.isFifo (hcf : d.keccak.CollisionFree) (h : Change d s s')
    (hs : IsFifo d s) : IsFifo d s' := by
  intro lists hlists
  cases h with
  | simple hsimple =>
    rcases hsimple.queue with ⟨b, hbatches, hqueue, hdequeued⟩ | ⟨hbatches, hqueue, hdequeued⟩
    · rw [hbatches, map_append, map_singleton] at hlists
      obtain ⟨front, last, rfl, hfront, hlast⟩ := map_eq_append_iff.mp hlists.symm
      obtain ⟨ws, rfl, hws⟩ := map_eq_singleton_iff.mp hlast
      obtain ⟨hflat, hrep⟩ := hs front hfront.symm
      have hle : s.dequeued.length ≤ front.flatten.length := by
        rw [hflat, length_append]
        exact Nat.le_add_right _ _
      rw [hdequeued, hqueue, remaining_concat front ws hle, ← hws]
      refine ⟨?_, hrep.enqueue hcf ws⟩
      rw [pushBatch_flatten, ← append_assoc, ← hflat]
      simp
    · rw [hbatches] at hlists
      rw [hdequeued, hqueue]
      exact hs lists hlists
  | taking htaking =>
    obtain ⟨hqueue, hdequeued, hbatches⟩ := htaking.queue
    rw [hbatches] at hlists
    obtain ⟨hflat, hrep⟩ := hs lists hlists
    obtain ⟨hfront, hrest⟩ := hrep.dequeue hcf hqueue
    rw [hdequeued, length_append, length_singleton, remaining_succ]
    refine ⟨?_, hrest⟩
    rw [hflat, hfront]
    simp
  | processed =>
    simp only [L1.batches, L1.dequeued, logged, filterMap_append, batch?, dequeued?, filterMap_cons,
      filterMap_nil, append_nil] at hlists ⊢
    exact hs lists hlists
  | status => exact hs lists hlists

omit [DecidableEq H] in
theorem Initialized.isFifo (h : Initialized d s) : IsFifo d s := by
  obtain ⟨balances, g, zoneId, messenger, verifier, t, -, rfl⟩ := h.exists_eq
  intro lists hlists
  obtain rfl : lists = [] := map_eq_nil_iff.mp hlists.symm
  exact ⟨rfl, represents_empty d.keccak⟩

theorem Reachable.isFifo (hcf : d.keccak.CollisionFree) (h : Reachable d s) : IsFifo d s := by
  obtain ⟨s0, hinit, hchanges⟩ := h.changes
  exact run_invariant (I := IsFifo d) (fun _ _ ht hc => hc.isFifo hcf ht) hchanges hinit.isFifo

/-! The dequeue check of a call. -/

/-- A processing call gets past its entry checks. -/
structure Enters (env : CallEnv H) (s : L1 H) (n : Nat) : Prop where
  sequencer : s.portal.governance.isSequencer env.sender = true
  notPaused : s.portal.governance.paused env.timestamp = false
  notEntered : s.portal.withdrawalReentrancyStatus = .notEntered
  processed_le : s.portal.lastProcessedDepositNumber ≤ s.portal.depositCount
  capacity : s.portal.depositCount - s.portal.lastProcessedDepositNumber + n ≤
    maxUnprocessedDeposits

/-- The passes of a processing call. -/
def Deployment.processAll (d : Deployment H) (env : CallEnv H)
    (ws : List (Withdrawal × WithdrawalBehaviour H)) (r : H) : PortalExec H Unit :=
  (ws.zip (HashChain.remainders d.keccak.withdrawal r
    (ws.map (·.1)))).forM fun x => d.processWithdrawal env x.1.1 x.2 x.1.2

omit [Zero H] [DecidableEq H] in
theorem yields_governed {m : GovExec Unit}
    (h : Yields m s.portal.governance () s.portal.governance) :
    Yields (governed m) s () s := yields_focus.mpr ⟨_, h, rfl⟩

theorem Enters.run_eq {env : CallEnv H} (h : Enters env s ws.length) (r : H) :
    (d.processWithdrawals env ws r).run s =
      (d.processAll env ws r >>= fun _ => setStatus .notEntered).run
        (s.withStatus .processing) := by
  have hcapacity := h.capacity
  have hsequencer : Yields (governed (Governance.onlySequencer env)) s () s :=
    yields_governed (yields_require.mpr ⟨h.sequencer, rfl⟩)
  have hpaused : Yields (governed (Governance.whenNotPaused env)) s () s :=
    yields_governed (yields_require.mpr ⟨by simp [h.notPaused], rfl⟩)
  unfold processWithdrawals
  rw [hsequencer.run_bind, hpaused.run_bind, run_reads_bind, run_require_bind, if_pos h.notEntered]
  change (unprocessedDeposits >>= _).run (s.withStatus .processing) = _
  have hunprocessed : Yields unprocessedDeposits (s.withStatus .processing)
      (s.portal.depositCount - s.portal.lastProcessedDepositNumber) (s.withStatus .processing) :=
    yields_reads_bind.mpr (yields_require_bind.mpr ⟨h.processed_le, yields_pure.mpr ⟨rfl, rfl⟩⟩)
  rw [hunprocessed.run_bind, run_require_bind, if_pos (by omega), remainingQueues_eq]
  rfl

/-! No pass but the first can fail the check. -/

omit [Zero H] [DecidableEq H] in
theorem throws_tryTransferWhen (allowed : Bool)
    (env : CallEnv H) (token to' : Address) (amount : Nat) (b : TransferBehaviour) :
    Throws P (d.tryTransferWhen allowed env token to' amount b) := by
  refine ite (ite ?_ (.pure _)) (.pure _)
  refine .bind (.attempts _) fun outcome => ?_
  cases outcome with
  | ok ok => exact .pure _
  | error e => exact .pure _

omit [Zero H] [DecidableEq H] in
theorem throws_enqueueBounceBack (token : Address) (amount : Nat) (nonce : BitVec 64) :
    Throws (· ≠ .invalidWithdrawalProof) (d.enqueueBounceBack token amount nonce) := by
  refine .bind (.reads _) fun _ => bind ?_ fun _ =>
    .updates _
  refine bind ?_ fun _ => ?_
  · exact .bind (.reads _) fun _ =>
      .bind (.require _ (by simp)) fun _ => .pure _
  · exact .bind (.require _ (by simp)) fun _ =>
      .bind (.reads _) fun _ => (Throws.require _ (by simp)).bind
        fun _ => .bind (.updates _) fun _ => .pure _

omit [Zero H] [DecidableEq H] in
theorem throws_processDepositBounceBack (env : CallEnv H) (w : Withdrawal)
    (b : WithdrawalBehaviour H) :
    Throws (· ≠ .invalidWithdrawalProof) (d.processDepositBounceBack env w b) := by
  refine .bind (.reads _) fun g =>
    (throws_tryTransferWhen _ _ _ _ _ _).bind fun collected =>
      (throws_tryTransferWhen _ _ _ _ _ _).bind fun success => ?_
  refine ite (.updates _) (bind ?_ fun _ =>
    .updates _)
  exact .bind (.reads _) fun _ =>
    .bind (.require _ (by simp)) fun _ => .updates _

theorem throws_sendWithdrawal (env : CallEnv H) (w : Withdrawal) (b : WithdrawalBehaviour H) :
    Throws P (d.sendWithdrawal env w b) := .bind (.reads _) fun _ => ite (.pure _)
    (ite (throws_tryTransferWhen _ _ _ _ _ _) (.bind (.attempts _) fun _ => .pure _))

/-- Once dequeued, a withdrawal never makes the call fail the check. -/
theorem throws_processWithdrawal (env : CallEnv H)
    (b : WithdrawalBehaviour H) {queue : WithdrawalQueue H}
    (hqueue : s.portal.withdrawalQueue.dequeue d.keccak w r = some queue) :
    ThrowsFrom (· ≠ .invalidWithdrawalProof) (d.processWithdrawal env w r b) s := by
  have hdequeue : Yields (orFail (s.portal.withdrawalQueue.dequeue d.keccak w
      r) .invalidWithdrawalProof : PortalExec H _) s queue s := yields_orFail.mpr ⟨hqueue, rfl⟩
  refine wp_reads_bind.mpr (hdequeue.wp_bind ?_)
  refine (Throws.bind (.updates _) fun _ => Throws.bind (.updates _) fun _ => Throws.ite
      (throws_processDepositBounceBack _ _ _)
      ((throws_sendWithdrawal _ _ _).bind fun success => ?_)).at s
  refine throws_of_from fun t => Throws.when_bind_from
    (throws_enqueueBounceBack _ _ _) fun t => (Throws.updates _).at t

theorem SimpleChanges.queue_extends (h : SimpleChanges d s s')
    (hclean : s.portal.withdrawalQueue.Clean) :
    Extends s.portal.withdrawalQueue s'.portal.withdrawalQueue ∧
      s'.portal.withdrawalQueue.Clean := by
  induction h with
  | refl => exact ⟨.refl _, hclean⟩
  | tail _ hlast ih =>
    rcases hlast.queue with ⟨b, -, hqueue, -⟩ | ⟨-, hqueue, -⟩
    · rw [hqueue]
      exact ⟨ih.1.trans (enqueue_extends _ _), ih.2.enqueue _⟩
    · rw [hqueue]
      exact ih

/-- Callbacks can only add to the queue. -/
theorem Callback.queue_extends (h : Callback d s s') (hclean : s.portal.withdrawalQueue.Clean) :
    Extends s.portal.withdrawalQueue s'.portal.withdrawalQueue ∧
      s'.portal.withdrawalQueue.Clean := by
  rcases h with rfl | ⟨s1, hchanges, rfl⟩
  · exact ⟨.refl _, hclean⟩
  · have hext := SimpleChanges.queue_extends hchanges hclean
    exact hext

/-- When the array fits the head slot, every pass finds its withdrawal at
the head of the queue. -/
theorem throws_processAll (hne : ∀ w tail, d.keccak.withdrawal w tail ≠ 0)
    (env : CallEnv H) (hclean : s.portal.withdrawalQueue.Clean)
    (hfits : ws ≠ [] → HashChain.wrap d.keccak.withdrawal r (ws.map (·.1)) =
      s.portal.withdrawalQueue.slots s.portal.withdrawalQueue.head) :
    ThrowsFrom (· ≠ .invalidWithdrawalProof) (d.processAll env ws r) s := by
  induction ws generalizing s with
  | nil => exact (Throws.pure _).at s
  | cons x rest ih =>
    obtain ⟨queue, hqueue⟩ := dequeue_of_fits (hfits (cons_ne_nil _ _))
    have hpass := throws_processWithdrawal env x.2 hqueue
    refine Wp.bind (Wp.of_wp hpass (R := fun _ s' => Yields _ s () s') fun _ _ hy _ => hy) ?_
    intro _ s' hy
    obtain ⟨o, s1, s2, htaking, hcallback, -, rfl, -⟩ := processWithdrawal_taking hy
    obtain ⟨hdequeue, -, -⟩ := htaking.queue
    obtain ⟨hext, hclean'⟩ := hcallback.queue_extends (hclean.dequeue hne hdequeue)
    rw [← finished_portal x.1 o s2] at hext hclean'
    refine ih hclean' fun hrest => ?_
    exact fits_of_dequeue hne hclean hdequeue hext (by simpa using hrest)

/-- Withdrawals that do not fit the head slot are refused at the first
pass. -/
theorem run_processAll_of_not_fits {env : CallEnv H} (hws : ws ≠ [])
    (hfits : HashChain.wrap d.keccak.withdrawal r (ws.map (·.1)) ≠
      s.portal.withdrawalQueue.slots s.portal.withdrawalQueue.head) :
    (d.processAll env ws r).run s = .error .invalidWithdrawalProof s := by
  cases ws with
  | nil => exact absurd rfl hws
  | cons x rest =>
    have hnone : s.portal.withdrawalQueue.dequeue d.keccak x.1
        (HashChain.wrap d.keccak.withdrawal r (rest.map (·.1))) = none := by
      exact if_pos hfits
    have hpass : (d.processWithdrawal env x.1 (HashChain.wrap
        d.keccak.withdrawal r (rest.map (·.1))) x.2).run s = .error .invalidWithdrawalProof s := by
      unfold processWithdrawal
      rw [run_reads_bind, hnone]
      rfl
    change (d.processWithdrawal env x.1 _ x.2 >>= _).run s = _
    rw [EStateM.run_bind, hpass]

/-- What a processing call has to submit to get past the dequeue check: a
front part of the oldest list, and the hash of the rest of that list. -/
def Continues (k : Keccak H) (pending : List (List Withdrawal))
    (ws : List Withdrawal) (r : H) : Prop :=
  ∃ rest, pending.headD [] = ws ++ rest ∧ r = queueHash k rest

/-- The check fails exactly for arrays that do not continue the oldest
list. -/
theorem Enters.refused_iff (hcf : d.keccak.CollisionFree) {env : CallEnv H}
    (hrep : s.portal.withdrawalQueue.Represents d.keccak pending) (h : Enters env s ws.length) :
    (∃ s', (d.processWithdrawals env ws r).run s = .error .invalidWithdrawalProof s') ↔
      ws ≠ [] ∧ ¬Continues d.keccak pending (ws.map (·.1)) r := by
  rw [h.run_eq r]
  have hfits := hrep.fits_iff hcf (ws.map (·.1)) r
  constructor
  · rintro ⟨s', hrun⟩
    by_contra hpass
    have hhead : ws ≠ [] → HashChain.wrap d.keccak.withdrawal r
        (ws.map (·.1)) = s.portal.withdrawalQueue.slots
          s.portal.withdrawalQueue.head := by
      intro hws
      by_contra hno
      exact hpass ⟨hws, mt hfits.mpr hno⟩
    have hthrows := throws_processAll (s := s.withStatus .processing)
      hcf.withdrawal.ne_zero env hrep.clean hhead
    have hall := Wp.bind hthrows (k := fun _ => setStatus .notEntered)
      (S := fun _ _ => True) fun _ t _ => (Throws.updates _).at t
    exact (wp_iff.mp hall).2 _ _ hrun rfl
  · rintro ⟨hws, hno⟩
    refine ⟨s.withStatus .processing, ?_⟩
    rw [EStateM.run_bind, run_processAll_of_not_fits
      (s := s.withStatus .processing) hws (mt hfits.mp hno)]

/-- Withdrawals leave the portal as one queue, each exactly once: those
dequeued are a front part of the settled lists, head, tail and slots hold the
rest, and a call passes the dequeue check exactly when its array is empty or
continues the oldest list. -/
theorem withdrawals_fifo (hcf : d.keccak.CollisionFree) {s : L1 H}
    (hs : Reachable d s) {lists : List (List Withdrawal)}
    (hlists : s.batches.map (·.settlement.withdrawalQueueHash) = lists.map (queueHash d.keccak)) :
    s.dequeued <+: lists.flatten ∧ lists.flatten =
      s.dequeued ++ (remaining lists s.dequeued.length).flatten ∧
    s.portal.withdrawalQueue.Represents d.keccak (remaining lists s.dequeued.length) ∧
    ∀ env (ws : List (Withdrawal × WithdrawalBehaviour H)) r, Enters env s ws.length →
      ((∀ s', (d.processWithdrawals env ws r).run s ≠ .error .invalidWithdrawalProof s') ↔
        ws = [] ∨ Continues d.keccak (remaining lists s.dequeued.length) (ws.map (·.1)) r) := by
  obtain ⟨hflat, hrep⟩ := hs.isFifo hcf lists hlists
  refine ⟨⟨_, hflat.symm⟩, hflat, hrep, fun env ws r henter => ?_⟩
  have hrefused := henter.refused_iff (r := r) hcf hrep
  rw [← not_iff_not]
  push Not
  rw [hrefused]

/-! Two queued withdrawals, the first of them processed. -/

namespace Sample

def withdrawal (nonce : BitVec 64) : Withdrawal where
  token := token
  senderTag := 0
  to' := user
  amount := 10
  memo := 0
  gasLimit := 0
  fallbackNonce := nonce
  callbackData := []
  encryptedSender := []

def behaviour : WithdrawalBehaviour Term where
  feeTransfer := ⟨true, .returns true, .returns true⟩
  transfer := ⟨true, .returns true, .returns true⟩
  toMessenger := .returns true
  relay := ⟨[], false⟩

/-- The withdrawals of the batch. -/
def queued : List Withdrawal := [withdrawal 1, withdrawal 2]

def processed : L1 Term :=
  finalState ((Call.processWithdrawals (env sequencer) [(withdrawal 1, behaviour)]
    (queueHash termKeccak [withdrawal 2])).exec (deployment [batchDigest queued])) (settled queued)

theorem reachable_processed : Reachable (deployment [batchDigest queued]) processed := by
  obtain ⟨s0, hinit, hrun⟩ := reachable_settled queued (by decide +kernel)
  exact ⟨s0, hinit, hrun.tail ⟨_, yields_finalState (by decide +kernel)⟩⟩

end Sample

theorem withdrawals_fifo_processed : processed.dequeued = [withdrawal 1] ∧
      processed.dequeued <+: [queued].flatten :=
  ⟨by decide +kernel, (withdrawals_fifo termKeccak_collisionFree reachable_processed
      (show processed.batches.map (·.settlement.withdrawalQueueHash) =
          [queued].map (queueHash termKeccak) by
            decide +kernel)).1⟩

/-- A call with an empty array passes with any remainder. -/
theorem empty_array_passes :
    Reachable (deployment [batchDigest queued]) processed ∧
      Enters (env sequencer) processed 0 ∧ succeeds ((deployment
        [batchDigest queued]).processWithdrawals
          (env sequencer) [] (.verifierConfig [1])) processed = true :=
  ⟨reachable_processed, ⟨by decide +kernel, by decide +kernel, by decide +kernel,
      by decide +kernel, by decide +kernel⟩, by decide +kernel⟩

end Tempo.Zones
